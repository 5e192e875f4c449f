import Mathlib.Data.List.Nodup

/-!
# Suppressing duplicates by a key

The elements of a list under keys that were not seen before, in order. An element without a
key is never a duplicate. What is left has distinct unseen keys, and represents the list: the
key of every element was seen or is the key of an element that is left.
-/
namespace Lib
variable {α κ : Type} [DecidableEq κ]

/-- The elements that are no duplicates, after some keys were seen. -/
def dedupBy (key : α → Option κ) (seen : List κ) : List α → List α
  | [] => []
  | a :: l =>
    match key a with
    | none => a :: dedupBy key seen l
    | some k => if k ∈ seen then dedupBy key seen l else a :: dedupBy key (k :: seen) l

variable {key : α → Option κ}

@[simp] theorem dedupBy_nil (seen : List κ) : dedupBy key seen [] = [] := rfl

theorem dedupBy_cons_of_none {a : α} (h : key a = none) (seen : List κ) (l : List α) :
    dedupBy key seen (a :: l) = a :: dedupBy key seen l := by
  rw [dedupBy, h]

theorem dedupBy_cons_of_mem {a : α} {k : κ} (h : key a = some k) {seen : List κ} (hk : k ∈ seen)
    (l : List α) : dedupBy key seen (a :: l) = dedupBy key seen l := by
  rw [dedupBy, h]
  exact if_pos hk

theorem dedupBy_cons_of_notMem {a : α} {k : κ} (h : key a = some k) {seen : List κ}
    (hk : k ∉ seen) (l : List α) :
    dedupBy key seen (a :: l) = a :: dedupBy key (k :: seen) l := by
  rw [dedupBy, h]
  exact if_neg hk

/-- Only which keys of the list were seen counts. -/
theorem dedupBy_congr {seen seen' : List κ} {l : List α}
    (h : ∀ a ∈ l, ∀ k ∈ key a, (k ∈ seen ↔ k ∈ seen')) :
    dedupBy key seen l = dedupBy key seen' l := by
  induction l generalizing seen seen' with
  | nil => rfl
  | cons a l ih =>
    have hl : ∀ b ∈ l, ∀ k ∈ key b, (k ∈ seen ↔ k ∈ seen') :=
      fun b hb => h b (List.mem_cons_of_mem _ hb)
    cases hk : key a with
    | none => rw [dedupBy_cons_of_none hk, dedupBy_cons_of_none hk, ih hl]
    | some k =>
      have ha := h a List.mem_cons_self k hk
      by_cases hmem : k ∈ seen
      · rw [dedupBy_cons_of_mem hk hmem, dedupBy_cons_of_mem hk (ha.mp hmem), ih hl]
      · have hl' : ∀ b ∈ l, ∀ k' ∈ key b, (k' ∈ k :: seen ↔ k' ∈ k :: seen') :=
          fun b hb k' hk' => by simp [hl b hb k' hk']
        rw [dedupBy_cons_of_notMem hk hmem, dedupBy_cons_of_notMem hk (mt ha.mpr hmem), ih hl']

/-- The keys alone decide. -/
theorem map_dedupBy (seen : List κ) (l : List α) :
    (dedupBy key seen l).map key = dedupBy id seen (l.map key) := by
  induction l generalizing seen with
  | nil => rfl
  | cons a l ih =>
    rw [List.map_cons]
    cases hk : key a with
    | none => rw [dedupBy_cons_of_none hk, dedupBy_cons_of_none rfl, List.map_cons, ih, hk]
    | some k =>
      have hid : id (some k) = some k := rfl
      by_cases hmem : k ∈ seen
      · rw [dedupBy_cons_of_mem hk hmem, dedupBy_cons_of_mem hid hmem, ih]
      · rw [dedupBy_cons_of_notMem hk hmem, dedupBy_cons_of_notMem hid hmem, List.map_cons, ih, hk]

theorem dedupBy_sublist (seen : List κ) (l : List α) : (dedupBy key seen l).Sublist l := by
  induction l generalizing seen with
  | nil => exact .slnil
  | cons a l ih =>
    cases hk : key a with
    | none => exact dedupBy_cons_of_none hk seen l ▸ (ih seen).cons_cons a
    | some k =>
      by_cases hmem : k ∈ seen
      · exact dedupBy_cons_of_mem hk hmem l ▸ (ih seen).cons a
      · exact dedupBy_cons_of_notMem hk hmem l ▸ (ih (k :: seen)).cons_cons a

/-- The keys that are left are distinct, and none of them was seen. -/
theorem dedupBy_keys (seen : List κ) (l : List α) :
    ((dedupBy key seen l).filterMap key).Nodup ∧
      ∀ k ∈ (dedupBy key seen l).filterMap key, k ∉ seen := by
  induction l generalizing seen with
  | nil => simp
  | cons a l ih =>
    cases hk : key a with
    | none =>
      rw [dedupBy_cons_of_none hk, List.filterMap_cons_none hk]
      exact ih seen
    | some k =>
      by_cases hmem : k ∈ seen
      · rw [dedupBy_cons_of_mem hk hmem]
        exact ih seen
      · rw [dedupBy_cons_of_notMem hk hmem, List.filterMap_cons_some hk]
        obtain ⟨hnodup, hunseen⟩ := ih (k :: seen)
        refine ⟨List.nodup_cons.mpr ⟨fun hin => hunseen k hin List.mem_cons_self, hnodup⟩, ?_⟩
        exact List.forall_mem_cons.mpr
          ⟨hmem, fun k' hk' hin => hunseen k' hk' (List.mem_cons_of_mem _ hin)⟩

/-- An element whose key was not seen is represented by one that is left. -/
theorem exists_mem_dedupBy {seen : List κ} {l : List α} {a : α} (ha : a ∈ l)
    (hunseen : ∀ k ∈ key a, k ∉ seen) : ∃ b ∈ dedupBy key seen l, key b = key a := by
  induction l generalizing seen with
  | nil => cases ha
  | cons b l ih =>
    cases hk : key b with
    | none =>
      rw [dedupBy_cons_of_none hk]
      rcases List.mem_cons.mp ha with rfl | ha
      · exact ⟨a, List.mem_cons_self, rfl⟩
      · obtain ⟨b', hb', hkey⟩ := ih ha hunseen
        exact ⟨b', List.mem_cons_of_mem _ hb', hkey⟩
    | some k =>
      by_cases hmem : k ∈ seen
      · rw [dedupBy_cons_of_mem hk hmem]
        rcases List.mem_cons.mp ha with rfl | ha
        · exact absurd hmem (hunseen k hk)
        · exact ih ha hunseen
      · rw [dedupBy_cons_of_notMem hk hmem]
        by_cases hkey : key a = some k
        · exact ⟨b, List.mem_cons_self, hk.trans hkey.symm⟩
        · have hin : a ∈ l := by
            rcases List.mem_cons.mp ha with rfl | ha
            · exact absurd hk hkey
            · exact ha
          have hunseen' : ∀ k' ∈ key a, k' ∉ k :: seen := by
            rintro k' hk' (_ | ⟨_, hin⟩)
            · exact hkey hk'
            · exact hunseen k' hk' hin
          obtain ⟨b', hb', hkey'⟩ := ih hin hunseen'
          exact ⟨b', List.mem_cons_of_mem _ hb', hkey'⟩

/-- Nothing is left exactly when every key was seen. -/
theorem dedupBy_eq_nil_iff {seen : List κ} {l : List α} :
    dedupBy key seen l = [] ↔ ∀ a ∈ l, ∃ k ∈ seen, key a = some k := by
  constructor
  · intro h a ha
    by_contra hno
    obtain ⟨b, hb, -⟩ := exists_mem_dedupBy ha fun k hk hin => hno ⟨k, hin, hk⟩
    rw [h] at hb
    cases hb
  · intro h
    induction l with
    | nil => rfl
    | cons a l ih =>
      obtain ⟨k, hin, hk⟩ := h a List.mem_cons_self
      rw [dedupBy_cons_of_mem hk hin]
      exact ih fun b hb => h b (List.mem_cons_of_mem _ hb)

/-! ## Storing what is left

Stored keys are a list, with nothing for an element without a key. Keys of some kind are
recognised when they come again. -/

section Store
variable (recognised : κ → Prop) [DecidablePred recognised]

/-- The stored keys that are recognised. -/
def seenKeys (stored : List (Option κ)) : List κ := (stored.filterMap id).filter recognised

/-- The stored keys and those of the elements that are no duplicates of them. -/
def storeKeys (stored incoming : List (Option κ)) : List (Option κ) :=
  stored ++ dedupBy id (seenKeys recognised stored) incoming

variable {recognised}

omit [DecidableEq κ] in
theorem mem_seenKeys {stored : List (Option κ)} {k : κ} :
    k ∈ seenKeys recognised stored ↔ some k ∈ stored ∧ recognised k := by
  simp [seenKeys]

/-- An element without a key is stored. -/
theorem storeKeys_cons_none (stored incoming : List (Option κ)) :
    storeKeys recognised stored (none :: incoming) =
      storeKeys recognised (stored ++ [none]) incoming := by
  have hseen : seenKeys recognised (stored ++ [none]) = seenKeys recognised stored := by
    simp [seenKeys]
  rw [storeKeys, storeKeys, hseen, dedupBy_cons_of_none rfl, List.append_cons]

/-- An element under a recognised key is not stored. -/
theorem storeKeys_cons_of_mem {stored : List (Option κ)} {k : κ}
    (hk : k ∈ seenKeys recognised stored) (incoming : List (Option κ)) :
    storeKeys recognised stored (some k :: incoming) = storeKeys recognised stored incoming := by
  have hid : id (some k) = some k := rfl
  rw [storeKeys, storeKeys, dedupBy_cons_of_mem hid hk]

/-- An element under a new key is stored, and recognised from then on. -/
theorem storeKeys_cons_of_notMem {stored : List (Option κ)} {k : κ}
    (hk : k ∉ seenKeys recognised stored) (hrecognised : recognised k)
    (incoming : List (Option κ)) : storeKeys recognised stored (some k :: incoming) =
      storeKeys recognised (stored ++ [some k]) incoming := by
  have hid : id (some k) = some k := rfl
  have hseen : ∀ k', k' ∈ k :: seenKeys recognised stored ↔
      k' ∈ seenKeys recognised (stored ++ [some k]) := by
    intro k'
    simp only [List.mem_cons, mem_seenKeys, List.mem_append, Option.some.injEq, List.not_mem_nil,
      or_false]
    constructor
    · rintro (rfl | ⟨hstored, hk'⟩)
      · exact ⟨.inr rfl, hrecognised⟩
      · exact ⟨.inl hstored, hk'⟩
    · rintro ⟨hstored | rfl, hk'⟩
      · exact .inr ⟨hstored, hk'⟩
      · exact .inl rfl
  rw [storeKeys, storeKeys, dedupBy_cons_of_notMem hid hk, List.append_cons,
    dedupBy_congr fun _ _ k' _ => hseen k']

theorem storeKeys_eq_self_iff {stored incoming : List (Option κ)} :
    storeKeys recognised stored incoming = stored ↔
      ∀ key ∈ incoming, ∃ k ∈ key, key ∈ stored ∧ recognised k := by
  unfold storeKeys
  rw [List.append_right_eq_self, dedupBy_eq_nil_iff]
  refine forall₂_congr fun key _ => ?_
  constructor
  · rintro ⟨k, hk, rfl⟩
    exact ⟨k, rfl, mem_seenKeys.mp hk⟩
  · rintro ⟨k, rfl, hk⟩
    exact ⟨k, mem_seenKeys.mpr hk, rfl⟩

/-- Every element is represented once its key is recognised or it was stored itself. -/
theorem mem_storeKeys {stored incoming : List (Option κ)} {key : Option κ} (h : key ∈ incoming) :
    key ∈ storeKeys recognised stored incoming := by
  by_cases hseen : ∀ k ∈ id key, k ∉ seenKeys recognised stored
  · obtain ⟨key', hmem, hkey⟩ := exists_mem_dedupBy h hseen
    obtain rfl : key' = key := hkey
    exact List.mem_append_right _ hmem
  · push Not at hseen
    obtain ⟨k, hk, hmem⟩ := hseen
    obtain rfl : key = some k := hk
    exact List.mem_append_left _ (mem_seenKeys.mp hmem).1

/-- What is stored of elements with keys has distinct keys. -/
theorem nodup_dedupBy_id {seen : List κ} {incoming : List (Option κ)}
    (h : ∀ key ∈ incoming, key.isSome = true) : (dedupBy id seen incoming).Nodup := by
  have hsome : ∀ l : List (Option κ), (∀ key ∈ l, key.isSome = true) →
      l = (l.filterMap id).map some := by
    intro l hl
    induction l with
    | nil => rfl
    | cons key l ih =>
      obtain ⟨k, rfl⟩ := Option.isSome_iff_exists.mp (hl key List.mem_cons_self)
      have htail := ih fun key hkey => hl key (List.mem_cons_of_mem _ hkey)
      simpa using htail
  rw [hsome _ fun key hkey => h key ((dedupBy_sublist seen incoming).mem hkey)]
  exact (dedupBy_keys seen incoming).1.map fun _ _ => Option.some.inj

/-- Storing elements a second time adds nothing, those that were added have distinct keys, and
all keys are stored, exactly when the key of each of them is recognised. -/
theorem storeKeys_twice_iff {stored incoming : List (Option κ)} :
    (storeKeys recognised (storeKeys recognised stored incoming) incoming =
          storeKeys recognised stored incoming ∧
        (dedupBy id (seenKeys recognised stored) incoming).Nodup ∧
        ∀ key ∈ incoming, key ∈ storeKeys recognised stored incoming) ↔
      ∀ key ∈ incoming, ∃ k ∈ key, recognised k := by
  rw [storeKeys_eq_self_iff]
  constructor
  · rintro ⟨h, -, -⟩ key hkey
    obtain ⟨k, hk, -, hrecognised⟩ := h key hkey
    exact ⟨k, hk, hrecognised⟩
  · intro h
    refine ⟨fun key hkey => ?_, nodup_dedupBy_id fun key hkey => ?_, fun key => mem_storeKeys⟩
    · obtain ⟨k, hk, hrecognised⟩ := h key hkey
      exact ⟨k, hk, mem_storeKeys hkey, hrecognised⟩
    · obtain ⟨k, rfl, -⟩ := h key hkey
      rfl

end Store
end Lib
