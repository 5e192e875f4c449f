import Mathlib.Data.List.Perm.Basic
import Mathlib.Data.List.Nodup

/-!
# Declarations that agree

Several sources may declare a value. The values are kept as a set, so a declaration that was
made before is not noticed again; the value is settled when there is one in the set, and disputed
when there are several. Neither depends on the order of the declarations.
-/
namespace Lib

variable {α : Type}

/-- A set with one more element, unless an equal one is there. -/
def addNew (same : α → α → Bool) (l : List α) (x : α) : List α :=
  if l.any (same x) then l else l ++ [x]

/-- The set of some values. -/
def distinct (same : α → α → Bool) (l : List α) : List α := l.foldl (addNew same) []

/-- The only element. -/
def sole : List α → Option α
  | [x] => some x
  | _ => none

theorem sole_eq_some {l : List α} {x : α} : sole l = some x ↔ l = [x] := by
  match l with
  | [] => simp [sole]
  | [y] => simp [sole]
  | y :: z :: m => simp [sole]

theorem sole_perm {l l' : List α} (h : l.Perm l') : sole l = sole l' := by
  ext x
  rw [sole_eq_some, sole_eq_some]
  constructor
  · rintro rfl
    exact h.singleton_eq.symm
  · rintro rfl
    exact h.eq_singleton

/-- The comparison decides the equality of some values. -/
def Decides (same : α → α → Bool) (l : List α) : Prop :=
  ∀ a ∈ l, ∀ b ∈ l, same a b = true ↔ a = b

theorem decides_beq [DecidableEq α] (l : List α) : Decides (· == ·) l :=
  fun _ _ _ _ => beq_iff_eq

variable {same : α → α → Bool} {l l' : List α}

theorem Decides.perm (h : Decides same l) (hp : l.Perm l') : Decides same l' :=
  fun a ha b hb => h a (hp.mem_iff.mpr ha) b (hp.mem_iff.mpr hb)

/-- What a loop of additions leaves, from a set without repetitions. -/
theorem foldl_addNew {s : List α} (h : Decides same (s ++ l)) (hs : s.Nodup) :
    (l.foldl (addNew same) s).Nodup ∧ ∀ a, a ∈ l.foldl (addNew same) s ↔ a ∈ s ∨ a ∈ l := by
  induction l generalizing s with
  | nil => exact ⟨hs, by simp⟩
  | cons x l ih =>
    have hx : s.any (same x) = true ↔ x ∈ s := by
      rw [List.any_eq_true]
      constructor
      · rintro ⟨y, hy, hxy⟩
        rwa [(h x (by simp) y (by simp [hy])).mp hxy]
      · exact fun hmem => ⟨x, hmem, (h x (by simp) x (by simp)).mpr rfl⟩
    rw [List.foldl_cons, addNew]
    split
    · rename_i hany
      have hdec : Decides same (s ++ l) := fun a ha b hb =>
        h a (by simp only [List.mem_append, List.mem_cons] at ha ⊢; tauto) b
          (by simp only [List.mem_append, List.mem_cons] at hb ⊢; tauto)
      obtain ⟨hnodup, hmem⟩ := ih hdec hs
      refine ⟨hnodup, fun a => ?_⟩
      rw [hmem a, List.mem_cons]
      have hxs := hx.mp hany
      constructor
      · tauto
      · rintro (ha | rfl | ha)
        · exact .inl ha
        · exact .inl hxs
        · exact .inr ha
    · rename_i hany
      have hxs : x ∉ s := fun hmem => hany (hx.mpr hmem)
      have hdec : Decides same (s ++ [x] ++ l) := by
        rwa [List.append_assoc, List.singleton_append]
      have hsx : (s ++ [x]).Nodup := by
        rw [List.nodup_append_comm]
        exact List.nodup_cons.mpr ⟨hxs, hs⟩
      obtain ⟨hnodup, hmem⟩ := ih hdec hsx
      refine ⟨hnodup, fun a => ?_⟩
      rw [hmem a, List.mem_append, List.mem_singleton, List.mem_cons, or_assoc]

theorem nodup_distinct (h : Decides same l) : (distinct same l).Nodup :=
  (foldl_addNew (s := []) h List.nodup_nil).1

theorem mem_distinct (h : Decides same l) {a : α} : a ∈ distinct same l ↔ a ∈ l := by
  rw [distinct, (foldl_addNew (s := []) h List.nodup_nil).2]
  simp

/-- The order of the declarations is lost. -/
theorem distinct_perm (h : Decides same l) (hp : l.Perm l') :
    (distinct same l).Perm (distinct same l') :=
  (List.perm_ext_iff_of_nodup (nodup_distinct h) (nodup_distinct (h.perm hp))).mpr fun a => by
    rw [mem_distinct h, mem_distinct (h.perm hp), hp.mem_iff]

/-- A value is settled when it is declared and nothing else is. -/
theorem sole_distinct (h : Decides same l) {x : α} :
    sole (distinct same l) = some x ↔ x ∈ l ∧ ∀ y ∈ l, y = x := by
  rw [sole_eq_some]
  constructor
  · intro heq
    refine ⟨(mem_distinct h).mp (by simp [heq]), fun y hy => ?_⟩
    simpa [heq] using (mem_distinct h).mpr hy
  · rintro ⟨hx, hall⟩
    have hperm : (distinct same l).Perm [x] :=
      (List.perm_ext_iff_of_nodup (nodup_distinct h) (List.nodup_singleton x)).mpr fun a => by
        rw [mem_distinct h, List.mem_singleton]
        exact ⟨hall a, fun ha => ha ▸ hx⟩
    exact hperm.eq_singleton

/-- It is disputed when two declarations differ. -/
theorem length_distinct_le_one (h : Decides same l) :
    (distinct same l).length ≤ 1 ↔ ∀ a ∈ l, ∀ b ∈ l, a = b := by
  constructor
  · intro hlength a ha b hb
    have ha' := (mem_distinct h).mpr ha
    have hb' := (mem_distinct h).mpr hb
    match hd : distinct same l with
    | [] => simp [hd] at ha'
    | [x] =>
      rw [hd, List.mem_singleton] at ha' hb'
      rw [ha', hb']
    | x :: y :: m => simp [hd] at hlength
  · intro hall
    match hd : distinct same l with
    | [] => simp
    | [x] => simp
    | x :: y :: m =>
      have hnodup := nodup_distinct h
      have hmem : ∀ z ∈ x :: y :: m, z ∈ l := fun z hz => (mem_distinct h).mp (by rwa [hd])
      have hxy := hall x (hmem x (by simp)) y (hmem y (by simp))
      simp [hd, hxy] at hnodup

end Lib
