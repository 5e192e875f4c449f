import VardrMap.Lib.JsonText.Hooks
import VardrMap.Lib.Sorting

/-!
# Writing a document

`dumps` writes a document in ASCII without blanks, the keys of every object in ascending
order. Two documents are the same when they differ in the order of keys only, and that is
when their sorted forms are equal. A decoder that keeps objects with distinct keys reads the
sorted form back from the text, so the text determines the document (`loads_plain`).
-/
namespace Lib

namespace Doc

/-! ## The writer -/

mutual

/-- The text of a document, its keys in their order. -/
def plain : Doc → Text
  | null => ['n', 'u', 'l', 'l']
  | bool true => ['t', 'r', 'u', 'e']
  | bool false => ['f', 'a', 'l', 's', 'e']
  | int n => (toString n).toList
  | float r => r
  | constant name => name
  | str s => s.quote
  | arr xs => '[' :: plainItems xs ++ [']']
  | obj fs => '{' :: plainFields fs ++ ['}']

def plainItems : List Doc → Text
  | [] => []
  | [x] => plain x
  | x :: y :: xs => plain x ++ ',' :: plainItems (y :: xs)

def plainFields : List (Points × Doc) → Text
  | [] => []
  | [(k, x)] => k.quote ++ ':' :: plain x
  | (k, x) :: p :: fs => k.quote ++ ':' :: plain x ++ ',' :: plainFields (p :: fs)

end

mutual

/-- The document with the keys of every object in ascending order. -/
def sorted : Doc → Doc
  | arr xs => arr (sortedItems xs)
  | obj fs => obj (sortBy Prod.fst (sortedFields fs))
  | d => d

def sortedItems : List Doc → List Doc
  | [] => []
  | x :: xs => sorted x :: sortedItems xs

def sortedFields : List (Points × Doc) → List (Points × Doc)
  | [] => []
  | (k, x) :: fs => (k, sorted x) :: sortedFields fs

end

mutual

/-- Whether a document has a text: integers of a bounded number of digits, and the
constants beyond JSON only where they are allowed. -/
def writable (allowNan : Bool) : Doc → Bool
  | int n => (Nat.toDigits 10 n.natAbs).length ≤ maxDigits
  | constant _ => allowNan
  | arr xs => writableItems allowNan xs
  | obj fs => writableFields allowNan fs
  | _ => true

def writableItems (allowNan : Bool) : List Doc → Bool
  | [] => true
  | x :: xs => writable allowNan x && writableItems allowNan xs

def writableFields (allowNan : Bool) : List (Points × Doc) → Bool
  | [] => true
  | (_, x) :: fs => writable allowNan x && writableFields allowNan fs

end

/-- `json.dumps(value, sort_keys=True, separators=(",", ":"), allow_nan=allowNan)`. -/
def dumps (allowNan : Bool) (d : Doc) : Option Text :=
  if d.writable allowNan then some d.sorted.plain else none

mutual

/-- Equality of typed values, whatever the order of keys. -/
def same : Doc → Doc → Bool
  | null, null => true
  | bool a, bool b => a == b
  | int a, int b => a == b
  | float a, float b => a == b
  | constant a, constant b => a == b
  | str a, str b => a == b
  | arr xs, arr ys => sameItems xs ys
  | obj fs, obj gs => fs.length == gs.length && sameFields fs gs
  | _, _ => false

def sameItems : List Doc → List Doc → Bool
  | [], [] => true
  | x :: xs, y :: ys => same x y && sameItems xs ys
  | _, _ => false

/-- Every field of the first object is in the second with the same value. -/
def sameFields : List (Points × Doc) → List (Points × Doc) → Bool
  | [], _ => true
  | (k, x) :: fs, gs =>
    (match gs.lookup k with
      | some y => same x y
      | none => false) && sameFields fs gs

end

mutual

/-- No part of the document is a float. -/
def fractionless : Doc → Bool
  | float _ => false
  | arr xs => fractionlessItems xs
  | obj fs => fractionlessFields fs
  | _ => true

def fractionlessItems : List Doc → Bool
  | [] => true
  | x :: xs => fractionless x && fractionlessItems xs

def fractionlessFields : List (Points × Doc) → Bool
  | [] => true
  | (_, x) :: fs => fractionless x && fractionlessFields fs

end

mutual

/-- How many levels of arrays and objects lie above the deepest part. -/
def nesting : Doc → ℕ
  | arr xs => nestingItems xs
  | obj fs => nestingFields fs
  | _ => 0

def nestingItems : List Doc → ℕ
  | [] => 0
  | x :: xs => max (nesting x + 1) (nestingItems xs)

def nestingFields : List (Points × Doc) → ℕ
  | [] => 0
  | (_, x) :: fs => max (nesting x + 1) (nestingFields fs)

end

mutual

/-- Some object in the document holds a key twice. -/
def duplicated : Doc → Bool
  | arr xs => duplicatedItems xs
  | obj fs => !decide (fs.map Prod.fst).Nodup || duplicatedFields fs
  | _ => false

def duplicatedItems : List Doc → Bool
  | [] => false
  | x :: xs => duplicated x || duplicatedItems xs

def duplicatedFields : List (Points × Doc) → Bool
  | [] => false
  | (_, x) :: fs => duplicated x || duplicatedFields fs

end

/-! ## The recursions on lists -/

theorem sortedItems_eq (xs : List Doc) : sortedItems xs = xs.map sorted := by
  induction xs with
  | nil => rfl
  | cons x xs ih => rw [sortedItems, ih, List.map_cons]

theorem sortedFields_eq (fs : List (Points × Doc)) :
    sortedFields fs = fs.map fun p => (p.1, p.2.sorted) := by
  induction fs with
  | nil => rfl
  | cons p fs ih => rw [sortedFields, ih, List.map_cons]

theorem writableItems_iff {allowNan : Bool} {xs : List Doc} :
    writableItems allowNan xs = true ↔ ∀ x ∈ xs, writable allowNan x = true := by
  induction xs with
  | nil => simp [writableItems]
  | cons x xs ih => rw [writableItems, Bool.and_eq_true, ih, List.forall_mem_cons]

theorem writableFields_iff {allowNan : Bool} {fs : List (Points × Doc)} :
    writableFields allowNan fs = true ↔ ∀ p ∈ fs, writable allowNan p.2 = true := by
  induction fs with
  | nil => simp [writableFields]
  | cons p fs ih => rw [writableFields, Bool.and_eq_true, ih, List.forall_mem_cons]

theorem fractionlessItems_iff {xs : List Doc} :
    fractionlessItems xs = true ↔ ∀ x ∈ xs, fractionless x = true := by
  induction xs with
  | nil => simp [fractionlessItems]
  | cons x xs ih => rw [fractionlessItems, Bool.and_eq_true, ih, List.forall_mem_cons]

theorem fractionlessFields_iff {fs : List (Points × Doc)} :
    fractionlessFields fs = true ↔ ∀ p ∈ fs, fractionless p.2 = true := by
  induction fs with
  | nil => simp [fractionlessFields]
  | cons p fs ih => rw [fractionlessFields, Bool.and_eq_true, ih, List.forall_mem_cons]

theorem sameItems_iff {xs ys : List Doc} :
    sameItems xs ys = true ↔ List.Forall₂ (fun x y => same x y = true) xs ys := by
  induction xs generalizing ys with
  | nil => cases ys <;> simp [sameItems]
  | cons x xs ih =>
    cases ys with
    | nil => simp [sameItems]
    | cons y ys => rw [sameItems, Bool.and_eq_true, ih, List.forall₂_cons]

theorem sameFields_iff {fs gs : List (Points × Doc)} : sameFields fs gs = true ↔
    ∀ p ∈ fs, ∃ y, gs.lookup p.1 = some y ∧ same p.2 y = true := by
  induction fs with
  | nil => simp [sameFields]
  | cons p fs ih =>
    rw [sameFields, Bool.and_eq_true, ih, List.forall_mem_cons]
    refine and_congr_left fun _ => ?_
    cases gs.lookup p.1 <;> simp

theorem nestingItems_le_iff {xs : List Doc} {n : ℕ} :
    nestingItems xs ≤ n ↔ ∀ x ∈ xs, nesting x + 1 ≤ n := by
  induction xs with
  | nil => simp [nestingItems]
  | cons x xs ih => rw [nestingItems, max_le_iff, ih, List.forall_mem_cons]

theorem nestingFields_le_iff {fs : List (Points × Doc)} {n : ℕ} :
    nestingFields fs ≤ n ↔ ∀ p ∈ fs, nesting p.2 + 1 ≤ n := by
  induction fs with
  | nil => simp [nestingFields]
  | cons p fs ih => rw [nestingFields, max_le_iff, ih, List.forall_mem_cons]

theorem duplicatedItems_eq_false_iff {xs : List Doc} :
    duplicatedItems xs = false ↔ ∀ x ∈ xs, duplicated x = false := by
  induction xs with
  | nil => simp [duplicatedItems]
  | cons x xs ih => rw [duplicatedItems, Bool.or_eq_false_iff, ih, List.forall_mem_cons]

theorem duplicatedFields_eq_false_iff {fs : List (Points × Doc)} :
    duplicatedFields fs = false ↔ ∀ p ∈ fs, duplicated p.2 = false := by
  induction fs with
  | nil => simp [duplicatedFields]
  | cons p fs ih => rw [duplicatedFields, Bool.or_eq_false_iff, ih, List.forall_mem_cons]

/-! ## Well-formed documents -/

variable {floats : Text → Prop}

theorem WellFormed.writable {d : Doc} (h : WellFormed floats d) (allowNan : Bool) :
    writable allowNan d = true := by
  induction h with
  | null | bool | float | str => rfl
  | int h => exact decide_eq_true h
  | arr _ ih => exact writableItems_iff.mpr ih
  | obj _ _ _ ih => exact writableFields_iff.mpr ih

theorem WellFormed.fractionless {d : Doc} (h : WellFormed floats d)
    (hd : fractionless d = true) : WellFormed (fun _ => False) d := by
  induction h with
  | null => exact .null
  | bool b => exact .bool b
  | int h => exact .int h
  | float => cases hd
  | str h => exact .str h
  | arr _ ih => exact .arr fun x hx => ih x hx (fractionlessItems_iff.mp hd x hx)
  | obj hkeys hjoined _ ih =>
    exact .obj hkeys hjoined fun p hp => ih p hp (fractionlessFields_iff.mp hd p hp)

theorem map_fst_sortedFields (fs : List (Points × Doc)) :
    (sortedFields fs).map Prod.fst = fs.map Prod.fst := by
  rw [sortedFields_eq, List.map_map]
  rfl

theorem WellFormed.sorted {d : Doc} (h : WellFormed floats d) : WellFormed floats d.sorted := by
  induction h with
  | null => exact .null
  | bool b => exact .bool b
  | int h => exact .int h
  | float h => exact .float h
  | str h => exact .str h
  | arr _ ih =>
    rw [Doc.sorted, sortedItems_eq]
    exact .arr (List.forall_mem_map.mpr ih)
  | @obj fs hkeys hjoined _ ih =>
    rw [Doc.sorted]
    refine .obj ?_ (fun p hp => ?_) (fun p hp => ?_)
    · rw [((sortBy_perm _ _).map Prod.fst).nodup_iff, map_fst_sortedFields]
      exact hkeys
    · rw [mem_sortBy, sortedFields_eq, List.mem_map] at hp
      obtain ⟨q, hq, rfl⟩ := hp
      exact hjoined q hq
    · rw [mem_sortBy, sortedFields_eq, List.mem_map] at hp
      obtain ⟨q, hq, rfl⟩ := hp
      exact ih q hq

theorem WellFormed.not_duplicated {d : Doc} (h : WellFormed floats d) : d.duplicated = false := by
  induction h with
  | null | bool | int | float | str => rfl
  | arr _ ih => exact duplicatedItems_eq_false_iff.mpr ih
  | obj hkeys _ _ ih =>
    rw [duplicated, decide_eq_true hkeys, duplicatedFields_eq_false_iff.mpr ih]
    rfl

theorem WellFormed.nesting_sorted_le {d : Doc} (h : WellFormed floats d) (n : ℕ) :
    d.sorted.nesting ≤ n ↔ d.nesting ≤ n := by
  induction h generalizing n with
  | null | bool | int | float | str => exact Iff.rfl
  | arr _ ih =>
    rw [Doc.sorted, nesting, nesting, sortedItems_eq, nestingItems_le_iff, nestingItems_le_iff,
      List.forall_mem_map]
    refine forall₂_congr fun x hx => ?_
    cases n with
    | zero => simp
    | succ n => rw [Nat.succ_le_succ_iff, Nat.succ_le_succ_iff, ih x hx]
  | obj _ _ _ ih =>
    rw [Doc.sorted, nesting, nesting, nestingFields_le_iff, nestingFields_le_iff]
    simp only [mem_sortBy, sortedFields_eq, List.forall_mem_map]
    refine forall₂_congr fun p hp => ?_
    cases n with
    | zero => simp
    | succ n => rw [Nat.succ_le_succ_iff, Nat.succ_le_succ_iff, ih p hp]

/-! ## The same value -/

theorem lookup_of_mem {fs : List (Points × Doc)} (h : (fs.map Prod.fst).Nodup) {p : Points × Doc}
    (hp : p ∈ fs) : fs.lookup p.1 = some p.2 := by
  induction fs with
  | nil => cases hp
  | cons q fs ih =>
    rw [List.map_cons, List.nodup_cons] at h
    rcases List.mem_cons.mp hp with rfl | hp
    · exact List.lookup_cons_self
    · have hne : (p.1 == q.1) = false := beq_false_of_ne fun heq =>
        h.1 (heq ▸ List.mem_map_of_mem hp)
      rw [List.lookup_cons, hne]
      exact ih h.2 hp

theorem mem_of_lookup {fs : List (Points × Doc)} {k : Points} {x : Doc}
    (h : fs.lookup k = some x) : (k, x) ∈ fs := by
  obtain ⟨before, after, rfl, -⟩ := List.lookup_eq_some_iff.mp h
  exact List.mem_append_cons_self

theorem eq_of_key {fs : List (Points × Doc)} (h : (fs.map Prod.fst).Nodup) {p q : Points × Doc}
    (hp : p ∈ fs) (hq : q ∈ fs) (heq : p.1 = q.1) : p = q := by
  have hsome := lookup_of_mem h hp
  rw [heq, lookup_of_mem h hq, Option.some.injEq] at hsome
  exact Prod.ext heq hsome.symm

/-- Objects are sorted to the same when their fields are permuted. -/
theorem sorted_obj_eq_iff {fs gs : List (Points × Doc)} (hfs : (fs.map Prod.fst).Nodup) :
    sorted (obj fs) = sorted (obj gs) ↔ (sortedFields fs).Perm (sortedFields gs) := by
  rw [sorted, sorted, obj.injEq]
  constructor
  · intro h
    have hperm := sortBy_perm Prod.fst (sortedFields gs)
    rw [← h] at hperm
    exact (sortBy_perm _ _).symm.trans hperm
  · intro h
    rw [← map_fst_sortedFields] at hfs
    exact sortBy_eq_of_perm h fun p hp q hq => eq_of_key hfs hp hq

theorem mem_sortedFields {fs : List (Points × Doc)} {q : Points × Doc} :
    q ∈ sortedFields fs ↔ ∃ p ∈ fs, (p.1, p.2.sorted) = q := by
  rw [sortedFields_eq, List.mem_map]

/-- They are permuted when there are as many, and every field of one is in the other. -/
theorem sortedFields_perm_iff {fs gs : List (Points × Doc)} (hfs : (fs.map Prod.fst).Nodup)
    (hgs : (gs.map Prod.fst).Nodup) : (sortedFields fs).Perm (sortedFields gs) ↔
      fs.length = gs.length ∧
        ∀ p ∈ fs, ∃ y, gs.lookup p.1 = some y ∧ p.2.sorted = y.sorted := by
  have hlength : ∀ fs, (sortedFields fs).length = fs.length := fun fs => by
    rw [sortedFields_eq, List.length_map]
  constructor
  · intro h
    refine ⟨by rw [← hlength fs, h.length_eq, hlength gs], fun p hp => ?_⟩
    obtain ⟨q, hq, heq⟩ := mem_sortedFields.mp
      (h.mem_iff.mp (mem_sortedFields.mpr ⟨p, hp, rfl⟩))
    rw [Prod.mk.injEq] at heq
    exact ⟨q.2, by rw [← heq.1]; exact lookup_of_mem hgs hq, heq.2.symm⟩
  · rintro ⟨hlen, h⟩
    have hnodup : (sortedFields fs).Nodup := by
      refine List.Nodup.of_map Prod.fst ?_
      rw [map_fst_sortedFields]
      exact hfs
    have hsubset : sortedFields fs ⊆ sortedFields gs := by
      intro q hq
      obtain ⟨p, hp, rfl⟩ := mem_sortedFields.mp hq
      obtain ⟨y, hy, heq⟩ := h p hp
      exact mem_sortedFields.mpr ⟨_, mem_of_lookup hy, by rw [heq]⟩
    exact (List.subperm_of_subset hnodup hsubset).perm_of_length_le
      (by rw [hlength, hlength, hlen])

theorem forall₂_iff_map_eq {α β γ : Type} {r : α → β → Prop} {f : α → γ} {g : β → γ}
    {xs : List α} {ys : List β} (h : ∀ x ∈ xs, ∀ y ∈ ys, r x y ↔ f x = g y) :
    List.Forall₂ r xs ys ↔ xs.map f = ys.map g := by
  induction xs generalizing ys with
  | nil => cases ys <;> simp
  | cons x xs ih =>
    cases ys with
    | nil => simp
    | cons y ys =>
      rw [List.forall₂_cons, List.map_cons, List.map_cons, List.cons.injEq,
        h x List.mem_cons_self y List.mem_cons_self,
        ih fun x hx y hy => h x (List.mem_cons_of_mem _ hx) y (List.mem_cons_of_mem _ hy)]

/-- Documents are the same when their sorted forms are. -/
theorem same_iff {v w : Doc} (hv : WellFormed floats v) (hw : WellFormed floats w) :
    same v w = true ↔ v.sorted = w.sorted := by
  induction hv generalizing w with
  | null | bool | int | float | str => cases hw <;> simp [same, sorted]
  | @arr xs _ ih =>
    cases hw with
    | @arr ys hys =>
      rw [same, sameItems_iff, sorted, sorted, arr.injEq, sortedItems_eq, sortedItems_eq]
      exact forall₂_iff_map_eq fun x hx y hy => ih x hx (hys y hy)
    | _ => simp [same, sorted]
  | @obj fs hfs _ _ ih =>
    cases hw with
    | @obj gs hgs _ h =>
      rw [same, Bool.and_eq_true, beq_iff_eq, sameFields_iff, sorted_obj_eq_iff hfs,
        sortedFields_perm_iff hfs hgs]
      refine and_congr_right fun _ => forall₂_congr fun p hp => exists_congr fun y => ?_
      exact and_congr_right fun hy => ih p hp (h _ (mem_of_lookup hy))
    | _ => simp [same, sorted]

theorem WellFormed.sorted_sorted {d : Doc} (h : WellFormed floats d) :
    d.sorted.sorted = d.sorted := by
  induction h with
  | null | bool | int | float | str => rfl
  | arr _ ih =>
    rw [Doc.sorted, Doc.sorted, sortedItems_eq, sortedItems_eq, List.map_map]
    exact congrArg Doc.arr (List.map_congr_left ih)
  | @obj fs hkeys _ _ ih =>
    rw [Doc.sorted, Doc.sorted]
    have hfixed : sortedFields (sortBy Prod.fst (sortedFields fs)) =
        sortBy Prod.fst (sortedFields fs) := by
      rw [sortedFields_eq (sortBy _ _)]
      refine (List.map_congr_left fun p hp => ?_).trans (List.map_id _)
      rw [mem_sortBy] at hp
      obtain ⟨q, hq, rfl⟩ := mem_sortedFields.mp hp
      rw [ih q hq]
      rfl
    rw [hfixed]
    refine congrArg Doc.obj (sortBy_eq_of_perm (sortBy_perm _ _) fun p hp q hq => ?_)
    rw [mem_sortBy] at hp hq
    rw [← map_fst_sortedFields] at hkeys
    exact eq_of_key hkeys hp hq

/-- A document and its sorted form are the same. -/
theorem WellFormed.same_sorted {d : Doc} (h : WellFormed floats d) : same d d.sorted = true :=
  (same_iff h h.sorted).mpr h.sorted_sorted.symm

end Doc
end Lib
