import Mathlib.Data.List.Sort
import Mathlib.Data.List.MinMax
import Mathlib.Data.List.Dedup

/-!
# Order of a query

Rows come back in an order of their keys, and the latest row is the one with the
greatest key. When a key names its row, neither depends on the order in which the rows
are stored.
-/
namespace Lib

variable {α β : Type} [LinearOrder β]

/-- Rows in ascending order of a key. -/
def sortBy (f : α → β) (l : List α) : List α := l.insertionSort fun a b => f a ≤ f b

theorem sortBy_perm (f : α → β) (l : List α) : (sortBy f l).Perm l := List.perm_insertionSort _ l

@[simp] theorem mem_sortBy {f : α → β} {l : List α} {a : α} : a ∈ sortBy f l ↔ a ∈ l :=
  (sortBy_perm f l).mem_iff

@[simp] theorem length_sortBy (f : α → β) (l : List α) : (sortBy f l).length = l.length :=
  (sortBy_perm f l).length_eq

theorem pairwise_sortBy (f : α → β) (l : List α) :
    (sortBy f l).Pairwise fun a b => f a ≤ f b := by
  have htotal : Std.Total fun a b : α => f a ≤ f b := ⟨fun a b => le_total (f a) (f b)⟩
  have htrans : IsTrans α fun a b => f a ≤ f b := ⟨fun _ _ _ => le_trans⟩
  exact List.pairwise_insertionSort (fun a b => f a ≤ f b) l

/-- The order of the stored rows is lost. -/
theorem sortBy_eq_of_perm {f : α → β} {l l' : List α} (h : l.Perm l')
    (hf : ∀ a ∈ l, ∀ b ∈ l, f a = f b → a = b) : sortBy f l = sortBy f l' := by
  have hperm : (sortBy f l).Perm (sortBy f l') :=
    (sortBy_perm f l).trans (h.trans (sortBy_perm f l').symm)
  refine hperm.eq_of_pairwise (fun a b ha hb hab hba => ?_) (pairwise_sortBy f l)
    (pairwise_sortBy f l')
  rw [mem_sortBy] at ha hb
  exact hf a ha b (h.mem_iff.mpr hb) (le_antisymm hab hba)

/-- So is it by the greatest key. -/
theorem argmax_eq_of_perm {f : α → β} {l l' : List α} (h : l.Perm l')
    (hf : ∀ a ∈ l, ∀ b ∈ l, f a = f b → a = b) : l.argmax f = l'.argmax f := by
  cases hm : l.argmax f with
  | none =>
    rw [List.argmax_eq_none] at hm
    subst hm
    rw [h.symm.eq_nil, List.argmax_nil]
  | some m =>
    cases hm' : l'.argmax f with
    | none =>
      rw [List.argmax_eq_none] at hm'
      subst hm'
      rw [h.eq_nil] at hm
      simp at hm
    | some m' =>
      have hmem := List.argmax_mem hm
      have hmem' := h.mem_iff.mpr (List.argmax_mem hm')
      have hle := List.le_of_mem_argmax hmem' hm
      have hle' := List.le_of_mem_argmax (h.mem_iff.mp hmem) hm'
      rw [hf m hmem m' hmem' (le_antisymm hle' hle)]

/-- Sorted, each element once. -/
def sortedSet (l : List β) : List β := l.dedup.insertionSort (· ≤ ·)

theorem mem_sortedSet {l : List β} {a : β} : a ∈ sortedSet l ↔ a ∈ l := by
  rw [sortedSet, List.mem_insertionSort, List.mem_dedup]

theorem sortedSet_eq_nil {l : List β} : sortedSet l = [] ↔ l = [] := by
  simp only [List.eq_nil_iff_forall_not_mem, mem_sortedSet]

theorem nodup_sortedSet (l : List β) : (sortedSet l).Nodup :=
  (List.perm_insertionSort _ _).nodup_iff.mpr (List.nodup_dedup l)

/-- It is determined by the elements. -/
theorem sortedSet_congr {l l' : List β} (h : ∀ a, a ∈ l ↔ a ∈ l') : sortedSet l = sortedSet l' := by
  have hperm : l.dedup.Perm l'.dedup :=
    (List.perm_ext_iff_of_nodup (List.nodup_dedup l) (List.nodup_dedup l')).mpr fun a => by
      rw [List.mem_dedup, List.mem_dedup, h a]
  exact sortBy_eq_of_perm (f := id) hperm fun _ _ _ _ hab => hab

end Lib
