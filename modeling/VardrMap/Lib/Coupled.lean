import Mathlib.Data.List.Forall2
import Mathlib.Data.List.Perm.Basic

/-!
# Two runs side by side

Two computations are coupled by a relation when they fail together and, when they do not,
their results are related. Loops are coupled when the lists that they run through match: each
element of one is related to some element of the other, so that neither the order of a list
nor a repetition in it matters.
-/
namespace Lib

variable {ε α β α' β' : Type} {R : α → β → Prop} {S : α' → β' → Prop}

/-- Two computations that fail together, with related results. -/
inductive Coupled (R : α → β → Prop) : Except ε α → Except ε β → Prop
  | ok {a : α} {b : β} (h : R a b) : Coupled R (.ok a) (.ok b)
  | error (e e' : ε) : Coupled R (.error e) (.error e')

namespace Coupled

theorem refl {R : α → α → Prop} (h : ∀ a, R a a) (x : Except ε α) : Coupled R x x := by
  cases x with
  | ok a => exact .ok (h a)
  | error e => exact .error e e

theorem bind {x : Except ε α} {y : Except ε β} {f : α → Except ε α'} {g : β → Except ε β'}
    (h : Coupled R x y) (hfg : ∀ a b, R a b → Coupled S (f a) (g b)) :
    Coupled S (x >>= f) (y >>= g) := by
  cases h with
  | ok h => exact hfg _ _ h
  | error e e' => exact .error e e'

/-- Two computations that begin alike. -/
theorem same (x : Except ε α) {f : α → Except ε α'} {g : α → Except ε β'}
    (hfg : ∀ a, Coupled S (f a) (g a)) : Coupled S (x >>= f) (x >>= g) := by
  cases x with
  | ok a => exact hfg a
  | error e => exact .error e e

theorem mono {T : α → β → Prop} {x : Except ε α} {y : Except ε β} (h : Coupled R x y)
    (hRT : ∀ a b, R a b → T a b) : Coupled T x y := by
  cases h with
  | ok h => exact .ok (hRT _ _ h)
  | error e e' => exact .error e e'

theorem trans {R : α → α → Prop} (h : ∀ a b c, R a b → R b c → R a c) {x y z : Except ε α}
    (hxy : Coupled R x y) (hyz : Coupled R y z) : Coupled R x z := by
  cases hxy with
  | ok hab =>
    cases hyz with
    | ok hbc => exact .ok (h _ _ _ hab hbc)
  | error e e' =>
    cases hyz with
    | error _ e'' => exact .error e e''

theorem exists_ok {x : Except ε α} {y : Except ε β} (h : Coupled R x y) {a : α} (hx : x = .ok a) :
    ∃ b, y = .ok b ∧ R a b := by
  subst hx
  cases h with
  | ok h => exact ⟨_, rfl, h⟩

/-- Computations with one result succeed alike. -/
theorem eq_ok_iff {x y : Except ε α} (h : Coupled Eq x y) (a : α) : x = .ok a ↔ y = .ok a := by
  cases h with
  | ok h => rw [h]
  | error e e' => simp

end Coupled

/-! ## Loops -/

/-- Each element of one list is related to some element of the other. -/
def Matched (R : α → β → Prop) (l : List α) (l' : List β) : Prop :=
  (∀ a ∈ l, ∃ b ∈ l', R a b) ∧ ∀ b ∈ l', ∃ a ∈ l, R a b

namespace Matched

theorem refl {R : α → α → Prop} (h : ∀ a, R a a) (l : List α) : Matched R l l :=
  ⟨fun a ha => ⟨a, ha, h a⟩, fun a ha => ⟨a, ha, h a⟩⟩

theorem of_perm {R : α → α → Prop} (h : ∀ a, R a a) {l l' : List α} (hp : l.Perm l') :
    Matched R l l' :=
  ⟨fun a ha => ⟨a, hp.mem_iff.mp ha, h a⟩, fun a ha => ⟨a, hp.mem_iff.mpr ha, h a⟩⟩

theorem cons {a : α} {b : β} {l : List α} {l' : List β} (hab : R a b) (h : Matched R l l') :
    Matched R (a :: l) (b :: l') := by
  constructor
  · rintro x (_ | ⟨_, hx⟩)
    · exact ⟨b, List.mem_cons_self, hab⟩
    · obtain ⟨y, hy, hxy⟩ := h.1 x hx
      exact ⟨y, List.mem_cons_of_mem b hy, hxy⟩
  · rintro y (_ | ⟨_, hy⟩)
    · exact ⟨a, List.mem_cons_self, hab⟩
    · obtain ⟨x, hx, hxy⟩ := h.2 y hy
      exact ⟨x, List.mem_cons_of_mem a hx, hxy⟩

theorem of_forall₂ {l : List α} {l' : List β} (h : List.Forall₂ R l l') : Matched R l l' := by
  induction h with
  | nil => exact ⟨fun a ha => absurd ha List.not_mem_nil, fun b hb => absurd hb List.not_mem_nil⟩
  | cons hab _ ih => exact ih.cons hab

theorem append {l m : List α} {l' m' : List β} (h : Matched R l l') (hm : Matched R m m') :
    Matched R (l ++ m) (l' ++ m') := by
  constructor
  · intro x hx
    rcases List.mem_append.mp hx with hx | hx
    · obtain ⟨y, hy, hxy⟩ := h.1 x hx
      exact ⟨y, List.mem_append_left m' hy, hxy⟩
    · obtain ⟨y, hy, hxy⟩ := hm.1 x hx
      exact ⟨y, List.mem_append_right l' hy, hxy⟩
  · intro y hy
    rcases List.mem_append.mp hy with hy | hy
    · obtain ⟨x, hx, hxy⟩ := h.2 y hy
      exact ⟨x, List.mem_append_left m hx, hxy⟩
    · obtain ⟨x, hx, hxy⟩ := hm.2 y hy
      exact ⟨x, List.mem_append_right l hx, hxy⟩

theorem filter {p : α → Bool} {q : β → Bool} {l : List α} {l' : List β} (h : Matched R l l')
    (hpq : ∀ a b, R a b → p a = q b) : Matched R (l.filter p) (l'.filter q) := by
  constructor
  · intro x hx
    obtain ⟨hx, hp⟩ := List.mem_filter.mp hx
    obtain ⟨y, hy, hxy⟩ := h.1 x hx
    exact ⟨y, List.mem_filter.mpr ⟨hy, hpq x y hxy ▸ hp⟩, hxy⟩
  · intro y hy
    obtain ⟨hy, hq⟩ := List.mem_filter.mp hy
    obtain ⟨x, hx, hxy⟩ := h.2 y hy
    exact ⟨x, List.mem_filter.mpr ⟨hx, (hpq x y hxy).trans hq⟩, hxy⟩

end Matched

/-- A loop either ends with the results of its elements, or fails at one of them. -/
theorem mapM_cases (f : α → Except ε β) (l : List α) :
    (∃ out, l.mapM f = .ok out ∧ List.Forall₂ (fun a b => f a = .ok b) l out) ∨
      ∃ e, l.mapM f = .error e ∧ ∃ a ∈ l, f a = .error e := by
  induction l with
  | nil => exact .inl ⟨[], rfl, .nil⟩
  | cons a l ih =>
    rw [List.mapM_cons]
    cases ha : f a with
    | error e => exact .inr ⟨e, rfl, a, List.mem_cons_self, ha⟩
    | ok b =>
      rcases ih with ⟨out, hout, hall⟩ | ⟨e, he, x, hx, hfx⟩
      · exact .inl ⟨b :: out, by rw [hout]; rfl, .cons ha hall⟩
      · exact .inr ⟨e, by rw [he]; rfl, x, List.mem_cons_of_mem a hx, hfx⟩

theorem Coupled.mapM {f : α → Except ε α'} {g : β → Except ε β'} {l : List α} {l' : List β}
    (h : Matched R l l') (hfg : ∀ a b, R a b → Coupled S (f a) (g b)) :
    Coupled (Matched S) (l.mapM f) (l'.mapM g) := by
  rcases mapM_cases f l with ⟨out, hout, hall⟩ | ⟨e, he, a, ha, hfa⟩
  · rcases mapM_cases g l' with ⟨out', hout', hall'⟩ | ⟨e', he', b, hb, hgb⟩
    · rw [hout, hout']
      have hmem := Matched.of_forall₂ hall
      have hmem' := Matched.of_forall₂ hall'
      refine .ok ⟨fun x hx => ?_, fun y hy => ?_⟩
      · obtain ⟨a, ha, hax⟩ := hmem.2 x hx
        obtain ⟨b, hb, hab⟩ := h.1 a ha
        obtain ⟨y, hy, hby⟩ := hmem'.1 b hb
        have hxy := hfg a b hab
        rw [hax, hby] at hxy
        cases hxy with
        | ok hxy => exact ⟨y, hy, hxy⟩
      · obtain ⟨b, hb, hby⟩ := hmem'.2 y hy
        obtain ⟨a, ha, hab⟩ := h.2 b hb
        obtain ⟨x, hx, hax⟩ := hmem.1 a ha
        have hxy := hfg a b hab
        rw [hax, hby] at hxy
        cases hxy with
        | ok hxy => exact ⟨x, hx, hxy⟩
    · obtain ⟨a, ha, hab⟩ := h.2 b hb
      obtain ⟨x, -, hax⟩ := (Matched.of_forall₂ hall).1 a ha
      have hxy := hfg a b hab
      rw [hax, hgb] at hxy
      cases hxy
  · rcases mapM_cases g l' with ⟨out', -, hall'⟩ | ⟨e', he', -⟩
    · obtain ⟨b, hb, hab⟩ := h.1 a ha
      obtain ⟨y, -, hby⟩ := (Matched.of_forall₂ hall').1 b hb
      have hxy := hfg a b hab
      rw [hfa, hby] at hxy
      cases hxy
    · rw [he, he']
      exact .error e e'

theorem Coupled.mapM_eq {f g : α → Except ε β} {l : List α}
    (h : ∀ a ∈ l, Coupled Eq (f a) (g a)) : Coupled Eq (l.mapM f) (l.mapM g) := by
  induction l with
  | nil => exact .ok rfl
  | cons a l ih =>
    rw [List.mapM_cons, List.mapM_cons]
    refine (h a List.mem_cons_self).bind ?_
    rintro b _ rfl
    refine (ih fun x hx => h x (List.mem_cons_of_mem a hx)).bind ?_
    rintro bs _ rfl
    exact .ok rfl

/-- Two computations one after the other, in either order. -/
theorem Coupled.swap {x : Except ε α} {y : Except ε β} {f : α → β → Except ε α'}
    {g : α → β → Except ε β'} (h : ∀ a b, Coupled S (f a b) (g a b)) :
    Coupled S (do let a ← x; let b ← y; f a b) (do let b ← y; let a ← x; g a b) := by
  cases x with
  | ok a =>
    cases y with
    | ok b => exact h a b
    | error e => exact .error e e
  | error e =>
    cases y with
    | ok b => exact .error e e
    | error e' => exact .error e e'

/-- A loop over a reordered list has its results reordered. -/
theorem Coupled.mapM_perm {f : α → Except ε β} {l l' : List α} (h : l.Perm l') :
    Coupled List.Perm (l.mapM f) (l'.mapM f) := by
  induction h with
  | nil => exact .ok (.refl _)
  | cons a _ ih =>
    rw [List.mapM_cons, List.mapM_cons]
    refine Coupled.same (f a) fun b => ?_
    exact ih.bind fun bs bs' hbs => .ok (hbs.cons b)
  | swap a b l =>
    simp only [List.mapM_cons, bind_assoc]
    refine Coupled.swap fun x y => ?_
    simp only [pure_bind]
    cases l.mapM f with
    | ok out => exact .ok (.swap _ _ _)
    | error e => exact .error e e
  | trans _ _ ih ih' => exact Coupled.trans (fun _ _ _ hab hbc => hab.trans hbc) ih ih'

end Lib
