import Mathlib.Data.List.Nodup

/-!
# Find or create before anything is written

A session looks a row up by its key, changes the row that it finds and adds one where it finds
none. What it adds is written when it commits, so a lookup sees the rows that were stored before
and none of those that the session adds. A key without a stored row is therefore added each time
it comes.
-/
namespace Lib

section
variable {α κ : Type} [DecidableEq κ] {key : α → κ}

/-- What is to be done about a key. -/
structure Upsert (key : α → κ) where
  target : κ
  update : α → α
  create : α
  key_update : ∀ r, key (update r) = key r
  key_create : key create = target

/-- The stored rows as the session has changed them, and the rows that it adds. -/
structure Pending (α : Type) where
  loaded : List α
  added : List α

/-- Change the first row under a key. -/
def updateFirst (key : α → κ) (k : κ) (f : α → α) : List α → List α
  | [] => []
  | r :: rows => if key r = k then f r :: rows else r :: updateFirst key k f rows

namespace Pending

/-- The rows that a commit stores. -/
def rows (s : Pending α) : List α := s.loaded ++ s.added

/-- A row under the key is stored. -/
def finds (key : α → κ) (s : Pending α) (k : κ) : Bool := s.loaded.any fun r => key r = k

def upsert (s : Pending α) (u : Upsert key) : Pending α :=
  if s.finds key u.target then
    { s with loaded := updateFirst key u.target u.update s.loaded }
  else { s with added := s.added ++ [u.create] }

end Pending

/-! ## One key -/

theorem map_key_updateFirst {k : κ} {f : α → α} (hf : ∀ r, key (f r) = key r) (rows : List α) :
    (updateFirst key k f rows).map key = rows.map key := by
  induction rows with
  | nil => rfl
  | cons r rows ih =>
    rw [updateFirst]
    split
    · rw [List.map_cons, List.map_cons, hf]
    · rw [List.map_cons, List.map_cons, ih]

/-- Rows under other keys stay. -/
theorem mem_updateFirst_of_ne {k : κ} {f : α → α} {rows : List α} {r : α} (h : r ∈ rows)
    (hne : key r ≠ k) : r ∈ updateFirst key k f rows := by
  induction rows with
  | nil => cases h
  | cons x rows ih =>
    rw [updateFirst]
    split
    · rename_i hx
      rcases List.mem_cons.mp h with rfl | h
      · exact absurd hx hne
      · exact List.mem_cons_of_mem _ h
    · rcases List.mem_cons.mp h with rfl | h
      · exact List.mem_cons_self ..
      · exact List.mem_cons_of_mem _ (ih h)

/-- A row is as it was, or it is the changed one of a row under the key. -/
theorem mem_updateFirst {k : κ} {f : α → α} {rows : List α} {r : α}
    (h : r ∈ updateFirst key k f rows) : r ∈ rows ∨ ∃ x ∈ rows, key x = k ∧ r = f x := by
  induction rows with
  | nil => cases h
  | cons x rows ih =>
    rw [updateFirst] at h
    split at h
    · rename_i hkey
      rcases List.mem_cons.mp h with rfl | h
      · exact .inr ⟨x, List.mem_cons_self .., hkey, rfl⟩
      · exact .inl (List.mem_cons_of_mem _ h)
    · rcases List.mem_cons.mp h with rfl | h
      · exact .inl (List.mem_cons_self ..)
      · rcases ih h with h | ⟨y, hy, hkey, rfl⟩
        · exact .inl (List.mem_cons_of_mem _ h)
        · exact .inr ⟨y, List.mem_cons_of_mem _ hy, hkey, rfl⟩

/-- A key that is found has a changed row. -/
theorem exists_mem_updateFirst {k : κ} {f : α → α} {rows : List α} (h : k ∈ rows.map key) :
    ∃ r, key r = k ∧ f r ∈ updateFirst key k f rows := by
  induction rows with
  | nil => cases h
  | cons x rows ih =>
    rw [updateFirst]
    split
    · exact ⟨x, ‹_›, List.mem_cons_self ..⟩
    · rename_i hx
      obtain ⟨r, hr, hmem⟩ := ih ((List.mem_cons.mp h).resolve_left fun heq => hx heq.symm)
      exact ⟨r, hr, List.mem_cons_of_mem _ hmem⟩

namespace Pending
variable {s : Pending α} {u : Upsert key}

theorem finds_iff {k : κ} : s.finds key k = true ↔ k ∈ s.loaded.map key := by
  simp [finds, List.mem_map]

/-- The stored rows keep their keys. -/
theorem loaded_keys_upsert (s : Pending α) (u : Upsert key) :
    (s.upsert u).loaded.map key = s.loaded.map key := by
  rw [upsert]
  split
  · exact map_key_updateFirst u.key_update s.loaded
  · rfl

/-- A key that is not found is added. -/
theorem added_keys_upsert (s : Pending α) (u : Upsert key) : (s.upsert u).added.map key =
    s.added.map key ++ if u.target ∈ s.loaded.map key then [] else [u.target] := by
  rw [upsert]
  split
  · rw [if_pos (finds_iff.mp ‹_›), List.append_nil]
  · rw [if_neg fun hmem => ‹¬ _› (finds_iff.mpr hmem), List.map_append, List.map_singleton,
      u.key_create]

/-- Afterwards some row under the key is as the key asks for. -/
theorem exists_upsert (s : Pending α) (u : Upsert key) :
    ∃ r ∈ (s.upsert u).rows, key r = u.target ∧ (r = u.create ∨ ∃ x, r = u.update x) := by
  rw [upsert, rows]
  split
  · rename_i hfound
    obtain ⟨r, hkey, hmem⟩ := exists_mem_updateFirst (f := u.update) (finds_iff.mp hfound)
    exact ⟨_, List.mem_append_left _ hmem, (u.key_update r).trans hkey, .inr ⟨r, rfl⟩⟩
  · exact ⟨u.create, List.mem_append_right _ (List.mem_append_right _ (List.mem_singleton_self _)),
      u.key_create, .inl rfl⟩

/-- Rows under other keys stay. -/
theorem mem_rows_upsert {r : α} (h : r ∈ s.rows) (hne : key r ≠ u.target) :
    r ∈ (s.upsert u).rows := by
  rw [upsert]
  rcases List.mem_append.mp h with h | h
  · split
    · exact List.mem_append_left _ (mem_updateFirst_of_ne h hne)
    · exact List.mem_append_left _ h
  · split
    · exact List.mem_append_right _ h
    · exact List.mem_append_right _ (List.mem_append_left _ h)

/-! ## All keys -/

theorem loaded_keys_foldl (s : Pending α) (us : List (Upsert key)) :
    (us.foldl upsert s).loaded.map key = s.loaded.map key := by
  induction us generalizing s with
  | nil => rfl
  | cons u us ih => rw [List.foldl_cons, ih, loaded_keys_upsert]

/-- Every key without a stored row is added as often as it comes. -/
theorem added_keys_foldl (s : Pending α) (us : List (Upsert key)) :
    (us.foldl upsert s).added.map key = s.added.map key ++
      (us.map Upsert.target).filter fun k => !s.finds key k := by
  induction us generalizing s with
  | nil => exact (List.append_nil _).symm
  | cons u us ih =>
    have hfinds : (s.upsert u).finds key = s.finds key := by
      funext k
      rw [Bool.eq_iff_iff, finds_iff, finds_iff, loaded_keys_upsert]
    rw [List.foldl_cons, ih, added_keys_upsert, List.map_cons, hfinds, List.append_assoc]
    congr 1
    by_cases hmem : u.target ∈ s.loaded.map key
    · have hfound : ¬ (!s.finds key u.target) = true := by
        rw [finds_iff.mpr hmem]
        exact nofun
      rw [if_pos hmem, List.filter_cons, if_neg hfound, List.nil_append]
    · have hnot : (!s.finds key u.target) = true := by
        rw [Bool.not_eq_true', Bool.eq_false_iff]
        exact fun hfound => hmem (finds_iff.mp hfound)
      rw [if_neg hmem, List.filter_cons, if_pos hnot, List.singleton_append]

/-- The committed keys are distinct exactly when the stored ones are, and no key comes twice
without a stored row. -/
theorem nodup_rows_iff (stored : List α) (us : List (Upsert key)) :
    ((us.foldl upsert ⟨stored, []⟩).rows.map key).Nodup ↔ (stored.map key).Nodup ∧
      ((us.map Upsert.target).filter fun k => !finds key ⟨stored, []⟩ k).Nodup := by
  rw [rows, List.map_append, loaded_keys_foldl, added_keys_foldl, List.map_nil, List.nil_append,
    List.nodup_append]
  refine ⟨fun ⟨hloaded, hadded, _⟩ => ⟨hloaded, hadded⟩, fun ⟨hloaded, hadded⟩ =>
    ⟨hloaded, hadded, fun a ha b hb hab => ?_⟩⟩
  obtain ⟨-, hnot⟩ := List.mem_filter.mp hb
  rw [finds_iff.mpr (hab ▸ ha)] at hnot
  cases hnot

/-- The last that a key asks for is what a row under it is. -/
theorem exists_of_last (s : Pending α) (before after : List (Upsert key)) (u : Upsert key)
    (hlast : ∀ v ∈ after, v.target ≠ u.target) :
    ∃ r ∈ ((before ++ u :: after).foldl upsert s).rows, key r = u.target ∧
      (r = u.create ∨ ∃ x, r = u.update x) := by
  rw [List.foldl_append, List.foldl_cons]
  obtain ⟨r, hr, hkey, hasked⟩ := exists_upsert (before.foldl upsert s) u
  have hkept : ∀ t : Pending α, r ∈ t.rows → r ∈ (after.foldl upsert t).rows := by
    induction after with
    | nil => exact fun _ h => h
    | cons v after ih =>
      intro t h
      have hne : key r ≠ v.target := fun heq =>
        hlast v (List.mem_cons_self ..) (heq.symm.trans hkey)
      exact ih (fun w hw => hlast w (List.mem_cons_of_mem _ hw)) _ (mem_rows_upsert h hne)
  exact ⟨r, hkept _ hr, hkey, hasked⟩

end Pending

end

end Lib
