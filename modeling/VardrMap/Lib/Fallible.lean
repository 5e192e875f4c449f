import Mathlib.Data.List.Forall2

/-!
# Fallible steps

A step ends with a value or with a failure. The rules say when a sequence of steps, and a step
mapped over a list, end with a value, and with which.
-/
namespace Lib

variable {ε α β : Type}

theorem exists_of_isOk {x : Except ε α} (h : x.isOk = true) : ∃ a, x = .ok a := by
  cases x with
  | error e => cases h
  | ok a => exact ⟨a, rfl⟩

/-- A sequence of steps succeeds when each step does. -/
theorem bind_eq_ok {x : Except ε α} {f : α → Except ε β} {b : β} (h : (x >>= f) = .ok b) :
    ∃ a, x = .ok a ∧ f a = .ok b := by
  cases x with
  | ok a => exact ⟨a, rfl, h⟩
  | error e => simp [bind, Except.bind] at h

theorem bind_eq_ok_iff {x : Except ε α} {f : α → Except ε β} {b : β} :
    (x >>= f) = .ok b ↔ ∃ a, x = .ok a ∧ f a = .ok b := by
  refine ⟨bind_eq_ok, ?_⟩
  rintro ⟨a, rfl, h⟩
  exact h

/-- Checking every element of a list succeeds when each check does. -/
theorem forM_eq_ok {f : α → Except ε Unit} {l : List α} {u : Unit} (h : l.forM f = .ok u) :
    ∀ a ∈ l, f a = .ok () := by
  induction l with
  | nil => exact fun a ha => absurd ha List.not_mem_nil
  | cons b l ih =>
    obtain ⟨_, hb, hl⟩ := bind_eq_ok h
    exact List.forall_mem_cons.mpr ⟨hb, ih hl⟩

/-! ## Steps over a list -/

/-- An element of a list is paired with one of the other. -/
theorem exists_of_forall₂ {r : α → β → Prop} {l : List α} {l' : List β} {a : α}
    (h : List.Forall₂ r l l') (ha : a ∈ l) : ∃ b ∈ l', r a b := by
  induction h with
  | nil => simp at ha
  | cons hab _ ih =>
    rcases List.mem_cons.mp ha with rfl | ha
    · exact ⟨_, List.mem_cons_self .., hab⟩
    · obtain ⟨b, hb, hab⟩ := ih ha
      exact ⟨b, List.mem_cons_of_mem _ hb, hab⟩

theorem mapM_cons_eq_ok {f : α → Except ε β} {a : α} {l : List α} {b : β} {out : List β}
    (ha : f a = .ok b) (hl : l.mapM f = .ok out) : (a :: l).mapM f = .ok (b :: out) := by
  rw [List.mapM_cons, ha, hl]
  rfl

section
variable {f : α → Except ε β} {l : List α} {out : List β}

/-- Mapping a step over a list succeeds when the step does on every element. -/
theorem mapM_eq_ok (h : l.mapM f = .ok out) : List.Forall₂ (fun a b => f a = .ok b) l out := by
  induction l generalizing out with
  | nil =>
    obtain rfl : [] = out := by simpa [pure, Except.pure] using h
    exact .nil
  | cons a l ih =>
    rw [List.mapM_cons] at h
    obtain ⟨b, hb, h⟩ := bind_eq_ok h
    obtain ⟨bs, hbs, h⟩ := bind_eq_ok h
    obtain rfl : b :: bs = out := by simpa [pure, Except.pure] using h
    exact .cons hb (ih hbs)

theorem mapM_eq_ok_iff : l.mapM f = .ok out ↔ List.Forall₂ (fun a b => f a = .ok b) l out := by
  refine ⟨mapM_eq_ok, fun h => ?_⟩
  induction h with
  | nil => rfl
  | cons hb _ ih => exact mapM_cons_eq_ok hb ih

/-- What comes out of a list of steps is what comes out of its elements. -/
theorem mem_mapM_iff (h : l.mapM f = .ok out) {b : β} : b ∈ out ↔ ∃ a ∈ l, f a = .ok b := by
  have hall := mapM_eq_ok h
  constructor
  · exact fun hb => exists_of_forall₂ (r := fun b a => f a = .ok b) hall.flip hb
  · rintro ⟨a, ha, hfa⟩
    obtain ⟨b', hb', hfa'⟩ := exists_of_forall₂ hall ha
    rw [hfa] at hfa'
    rwa [Except.ok.inj hfa']

theorem exists_of_mapM_eq_ok (h : l.mapM f = .ok out) {b : β} (hb : b ∈ out) :
    ∃ a ∈ l, f a = .ok b := (mem_mapM_iff h).mp hb

end

/-- A step maps over a list, to results with a property, when it does on every element. -/
theorem exists_mapM_iff {f : α → Except ε β} {P : β → Prop} {l : List α} :
    (∃ out, l.mapM f = .ok out ∧ ∀ b ∈ out, P b) ↔ ∀ a ∈ l, ∃ b, f a = .ok b ∧ P b := by
  constructor
  · rintro ⟨out, hout, hP⟩ a ha
    obtain ⟨b, hb, hfa⟩ := exists_of_forall₂ (mapM_eq_ok hout) ha
    exact ⟨b, hfa, hP b hb⟩
  · intro h
    induction l with
    | nil => exact ⟨[], rfl, fun b hb => absurd hb List.not_mem_nil⟩
    | cons a l ih =>
      rw [List.forall_mem_cons] at h
      obtain ⟨⟨b, hb, hPb⟩, hl⟩ := h
      obtain ⟨bs, hbs, hP⟩ := ih hl
      exact ⟨b :: bs, mapM_cons_eq_ok hb hbs, List.forall_mem_cons.mpr ⟨hPb, hP⟩⟩

theorem mapM_congr {f g : α → Except ε β} {l : List α} (h : ∀ a ∈ l, f a = g a) :
    l.mapM f = l.mapM g := by
  induction l with
  | nil => rfl
  | cons a l ih =>
    rw [List.mapM_cons, List.mapM_cons, h a List.mem_cons_self,
      ih fun x hx => h x (List.mem_cons_of_mem _ hx)]

/-- Two readers that agree up to a relation. -/
theorem mapM_rel {f g : α → Except ε β} {R : β → β → Prop} {l : List α}
    (hfg : ∀ a ∈ l, ∀ b, f a = .ok b → ∃ b', g a = .ok b' ∧ R b b') {out : List β}
    (ho : l.mapM f = .ok out) : ∃ out', l.mapM g = .ok out' ∧ List.Forall₂ R out out' := by
  induction l generalizing out with
  | nil =>
    obtain rfl : [] = out := Except.ok.inj ho
    exact ⟨[], rfl, .nil⟩
  | cons a l ih =>
    rw [List.mapM_cons] at ho
    obtain ⟨b, hb, ho⟩ := bind_eq_ok ho
    obtain ⟨bs, hbs, ho⟩ := bind_eq_ok ho
    obtain rfl := Except.ok.inj ho
    obtain ⟨b', hb', hr⟩ := hfg a List.mem_cons_self b hb
    obtain ⟨bs', hbs', hrs⟩ := ih (fun x hx => hfg x (List.mem_cons_of_mem _ hx)) hbs
    exact ⟨b' :: bs', mapM_cons_eq_ok hb' hbs', .cons hr hrs⟩

end Lib
