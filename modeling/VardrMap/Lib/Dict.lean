import Mathlib.Data.List.Basic

/-!
# Dictionaries

A dictionary as the lookup it answers. What a loop of assignments leaves under a key is read
off the list of assignments: the last one of that key counts.
-/
namespace Lib

/-- What is stored under each key. -/
abbrev Dict (κ α : Type) := κ → Option α

namespace Dict
variable {κ α β : Type} [DecidableEq κ]

/-- `{}`. -/
def empty : Dict κ α := fun _ => none

/-- `d[k] = v`. -/
def set (d : Dict κ α) (k : κ) (v : α) : Dict κ α := fun k' => if k' = k then some v else d k'

/-- `d.setdefault(k, v)`. -/
def setDefault (d : Dict κ α) (k : κ) (v : α) : Dict κ α := if (d k).isSome then d else d.set k v

/-- A comprehension over pairs. -/
def ofPairs (l : List (κ × α)) : Dict κ α := l.foldl (fun d p => d.set p.1 p.2) empty

omit [DecidableEq κ] in
@[simp] theorem empty_apply (k : κ) : (empty : Dict κ α) k = none := rfl

theorem set_apply (d : Dict κ α) (k k' : κ) (v : α) :
    d.set k v k' = if k' = k then some v else d k' := rfl

@[simp] theorem set_self (d : Dict κ α) (k : κ) (v : α) : d.set k v k = some v := by
  simp [set_apply]

theorem set_ne {d : Dict κ α} {k k' : κ} {v : α} (h : k' ≠ k) : d.set k v k' = d k' := by
  simp [set_apply, h]

/-- A loop of assignments to one key per element, none of which has this key. -/
theorem foldl_set_of_forall_ne {key : β → κ} {f : Dict κ α → β → α} {k : κ} {l : List β}
    (h : ∀ x ∈ l, key x ≠ k) (d : Dict κ α) :
    l.foldl (fun d x => d.set (key x) (f d x)) d k = d k := by
  induction l generalizing d with
  | nil => rfl
  | cons x l ih =>
    rw [List.foldl_cons, ih fun y hy => h y (List.mem_cons_of_mem x hy)]
    exact set_ne (Ne.symm (h x (List.mem_cons_self ..)))

/-- A loop that assigns once under each key: what it leaves under the key of an element is
what it assigned for that element, from what was there before the loop. -/
theorem foldl_set_of_mem {key : β → κ} {f : Option α → β → α} {l : List β}
    (hl : (l.map key).Nodup) {x : β} (hx : x ∈ l) (d : Dict κ α) :
    l.foldl (fun d x => d.set (key x) (f (d (key x)) x)) d (key x) =
      some (f (d (key x)) x) := by
  induction l generalizing d with
  | nil => simp at hx
  | cons y l ih =>
    rw [List.map_cons, List.nodup_cons] at hl
    rw [List.foldl_cons]
    rcases List.mem_cons.mp hx with rfl | hxl
    · have hne : ∀ z ∈ l, key z ≠ key x := fun z hz hk =>
        hl.1 (List.mem_map.mpr ⟨z, hz, hk⟩)
      rw [@foldl_set_of_forall_ne κ α β _ key (fun d x => f (d (key x)) x) (key x) l hne, set_self]
    · have hne : key x ≠ key y := fun hk => hl.1 (List.mem_map.mpr ⟨x, hxl, hk⟩)
      rw [ih hl.2 hxl, set_ne hne]

/-- A comprehension whose pairs under this key all have one value. -/
theorem ofPairs_eq_some {l : List (κ × α)} {k : κ} {v : α} (hmem : (k, v) ∈ l)
    (hall : ∀ w, (k, w) ∈ l → w = v) : ofPairs l k = some v := by
  have key : ∀ (l : List (κ × α)) (d : Dict κ α), (∀ w, (k, w) ∈ l → w = v) →
      ((k, v) ∈ l ∨ d k = some v) → l.foldl (fun d p => d.set p.1 p.2) d k = some v := by
    intro l
    induction l with
    | nil => exact fun d _ h => h.resolve_left List.not_mem_nil
    | cons p l ih =>
      intro d hall h
      rw [List.foldl_cons]
      refine ih _ (fun w hw => hall w (List.mem_cons_of_mem p hw)) ?_
      by_cases hp : p.1 = k
      · have hv : p.2 = v := hall p.2 (by rw [← hp]; exact List.mem_cons_self ..)
        exact .inr (by rw [← hp, set_self, hv])
      · rcases h with h | h
        · rcases List.mem_cons.mp h with rfl | h
          · exact absurd rfl hp
          · exact .inl h
        · exact .inr (by rw [set_ne (Ne.symm hp), h])
  exact key l empty hall (.inl hmem)

theorem ofPairs_eq_none {l : List (κ × α)} {k : κ} (h : ∀ p ∈ l, p.1 ≠ k) :
    ofPairs l k = none :=
  @foldl_set_of_forall_ne κ α (κ × α) _ Prod.fst (fun _ p => p.2) k l h empty

end Dict
end Lib
