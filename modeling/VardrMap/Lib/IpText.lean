import VardrMap.Lib.Ip

/-!
# The text of a version 6 address names its groups

The text elides the first longest run of zero groups, when that has more than one. Two
addresses with the same text have the same eight groups: the fields before the first empty
field and after the last one are the groups on both sides of the run.
-/
namespace Lib
namespace Ip

/-! ## Hexadecimal digits -/

theorem digitChar_inj : ∀ m < 16, ∀ n < 16, Nat.digitChar m = Nat.digitChar n → m = n := by
  decide

theorem toDigits_inj {m n : ℕ} (h : Nat.toDigits 16 m = Nat.toDigits 16 n) : m = n := by
  induction m using Nat.strong_induction_on generalizing n with
  | _ m ih =>
  have hpos : ∀ k, 0 < (Nat.toDigits 16 k).length := fun _ => Nat.length_toDigits_pos
  by_cases hm : m < 16
  · rw [Nat.toDigits_of_lt_base hm] at h
    by_cases hn : n < 16
    · rw [Nat.toDigits_of_lt_base hn] at h
      exact digitChar_inj m hm n hn (List.singleton_inj.mp h)
    · rw [Nat.toDigits_of_base_le (by decide) (by omega)] at h
      have hlength := congrArg List.length h
      have hleft := hpos (n / 16)
      simp only [List.length_append, List.length_singleton] at hlength
      omega
  · rw [Nat.toDigits_of_base_le (by decide) (by omega)] at h
    by_cases hn : n < 16
    · rw [Nat.toDigits_of_lt_base hn] at h
      have hlength := congrArg List.length h
      have hleft := hpos (m / 16)
      simp only [List.length_append, List.length_singleton] at hlength
      omega
    · rw [Nat.toDigits_of_base_le (n := n) (by decide) (by omega)] at h
      obtain ⟨hleft, hright⟩ := List.append_inj' h rfl
      have hdiv := ih (m / 16) (by omega) hleft
      have hmod := digitChar_inj _ (Nat.mod_lt m (by decide)) _ (Nat.mod_lt n (by decide))
        (List.singleton_inj.mp hright)
      omega

theorem digitChar_ne_colon : ∀ n < 16, Nat.digitChar n ≠ ':' := by decide

theorem colon_notMem_toDigits (n : ℕ) : ':' ∉ Nat.toDigits 16 n := by
  induction n using Nat.strong_induction_on with
  | _ n ih =>
  rw [Nat.toDigits_eq_if (by decide)]
  split
  · rename_i hn
    exact fun h => digitChar_ne_colon n hn (List.mem_singleton.mp h).symm
  · rw [List.mem_append, not_or]
    refine ⟨ih (n / 16) (by omega), ?_⟩
    exact fun h => digitChar_ne_colon _ (Nat.mod_lt n (by decide)) (List.mem_singleton.mp h).symm

theorem toDigits_ne_nil (n : ℕ) : Nat.toDigits 16 n ≠ [] :=
  List.ne_nil_of_length_pos Nat.length_toDigits_pos

/-! ## The longest run of zeros -/

/-- The zeros from a place on. -/
def zerosFrom (l : List ℕ) (i : ℕ) : ℕ := ((l.drop i).takeWhile (· == 0)).length

theorem zeroRun_le (l : List ℕ) : (zeroRun l).2 ≤ zerosFrom l (zeroRun l).1 := by
  have hfold : ∀ (places : List ℕ) (best : ℕ × ℕ), best.2 ≤ zerosFrom l best.1 →
      let run := places.foldl (fun best i =>
        let n := ((l.drop i).takeWhile (· == 0)).length
        if best.2 < n then (i, n) else best) best
      run.2 ≤ zerosFrom l run.1 := by
    intro places
    induction places with
    | nil => exact fun best h => h
    | cons i places ih =>
      intro best h
      rw [List.foldl_cons]
      refine ih _ ?_
      dsimp only
      split
      · exact le_rfl
      · exact h
  exact hfold (List.range l.length) (0, 0) (Nat.zero_le _)

/-- The run is one of zeros. -/
theorem zeroRun_spec (l : List ℕ) :
    l = l.take (zeroRun l).1 ++ List.replicate (zeroRun l).2 0 ++
      l.drop ((zeroRun l).1 + (zeroRun l).2) := by
  have hle := zeroRun_le l
  generalize (zeroRun l).1 = start at hle ⊢
  generalize (zeroRun l).2 = n at hle ⊢
  have hzeros : (l.drop start).takeWhile (· == 0) = List.replicate (zerosFrom l start) 0 := by
    refine List.eq_replicate_of_mem fun b hb => ?_
    simpa using List.mem_takeWhile_imp hb
  have hrun : (l.drop start).take n = List.replicate n 0 := by
    rw [← List.takeWhile_append_dropWhile (p := (· == 0)) (l := l.drop start), hzeros,
      List.take_append_of_le_length (by simpa using hle), List.take_replicate, Nat.min_eq_left hle]
  calc
    l = l.take start ++ l.drop start := (List.take_append_drop start l).symm
    _ = l.take start ++ ((l.drop start).take n ++ (l.drop start).drop n) :=
      congrArg (l.take start ++ ·) (List.take_append_drop n (l.drop start)).symm
    _ = _ := by rw [hrun, List.drop_drop, List.append_assoc]

/-! ## Fields of a text -/

/-- The text of eight groups. -/
def textOf (l : List ℕ) : Text :=
  let run := zeroRun l
  if run.2 ≤ 1 then groupsText l
  else groupsText (l.take run.1) ++ "::".toList ++ groupsText (l.drop (run.1 + run.2))

theorem v6Text_eq (n : ℕ) : v6Text n = textOf (groupsOf n) := rfl

theorem fields_groupsText {l : List ℕ} (h : l ≠ []) :
    Text.fields ':' (groupsText l) = l.map (Nat.toDigits 16) := by
  refine List.splitOn_intercalate ':' ?_ (by simpa using h)
  intro s hs
  obtain ⟨n, -, rfl⟩ := List.mem_map.mp hs
  exact colon_notMem_toDigits n

theorem toDigits_map_inj {l l' : List ℕ}
    (h : l.map (Nat.toDigits 16) = l'.map (Nat.toDigits 16)) : l = l' :=
  List.map_injective_iff.mpr (fun _ _ => toDigits_inj) h

/-- The fields of a group text, with one empty field for no group. -/
theorem fields_groupsText_cases (l : List ℕ) :
    l = [] ∧ Text.fields ':' (groupsText l) = [[]] ∨
      l ≠ [] ∧ Text.fields ':' (groupsText l) = l.map (Nat.toDigits 16) := by
  cases l with
  | nil => exact .inl ⟨rfl, by simp [groupsText, Text.fields]⟩
  | cons n l => exact .inr ⟨by simp, fields_groupsText (by simp)⟩

/-- The fields up to the first empty one are the groups in front. -/
theorem takeWhile_fields (l : List ℕ) (rest : List Text) :
    (Text.fields ':' (groupsText l) ++ [] :: rest).takeWhile (fun s => !s.isEmpty) =
      l.map (Nat.toDigits 16) := by
  rcases fields_groupsText_cases l with ⟨rfl, h⟩ | ⟨-, h⟩
  · rw [h]
    rfl
  · rw [h, List.takeWhile_append_of_pos]
    · simp
    · intro s hs
      obtain ⟨n, -, rfl⟩ := List.mem_map.mp hs
      simp

/-- The fields after the last empty one are the groups behind. -/
theorem rtakeWhile_fields (l : List ℕ) (front : List Text) :
    (front ++ [] :: Text.fields ':' (groupsText l)).rtakeWhile (fun s => !s.isEmpty) =
      l.map (Nat.toDigits 16) := by
  rcases fields_groupsText_cases l with ⟨rfl, h⟩ | ⟨-, h⟩
  · rw [h]
    simp [List.rtakeWhile]
  · rw [h, List.rtakeWhile, List.reverse_append, List.reverse_cons, List.append_assoc,
      List.takeWhile_append_of_pos]
    · simp
    · intro s hs
      obtain ⟨n, -, rfl⟩ := List.mem_map.mp (List.mem_reverse.mp hs)
      simp

/-- The fields of an elided text. -/
theorem fields_elided (a b : Text) :
    Text.fields ':' (a ++ "::".toList ++ b) = Text.fields ':' a ++ [] :: Text.fields ':' b := by
  have hsep : a ++ "::".toList ++ b = a ++ ':' :: ([] ++ ':' :: b) := by simp
  rw [hsep, Text.fields_append_cons, Text.fields_append_cons]
  simp [Text.fields]

/-- Groups that are not elided leave no field empty. -/
theorem fields_groupsText_ne {l : List ℕ} (hne : l ≠ []) {front rest : List Text}
    (h : Text.fields ':' (groupsText l) = front ++ [] :: rest) : False := by
  rw [fields_groupsText hne] at h
  have hmem : [] ∈ l.map (Nat.toDigits 16) := by rw [h]; simp
  obtain ⟨n, -, hn⟩ := List.mem_map.mp hmem
  exact toDigits_ne_nil n hn

/-- Two lists of as many groups that have the same text are the same. -/
theorem textOf_inj {l l' : List ℕ} (hne : l ≠ []) (hlength : l.length = l'.length)
    (h : textOf l = textOf l') : l = l' := by
  have hne' : l' ≠ [] := by
    rintro rfl
    exact hne (List.length_eq_zero_iff.mp hlength)
  have hfields := congrArg (Text.fields ':') h
  simp only [textOf] at hfields
  split_ifs at hfields
  · rw [fields_groupsText hne, fields_groupsText hne'] at hfields
    exact toDigits_map_inj hfields
  · rw [fields_elided] at hfields
    exact (fields_groupsText_ne hne hfields).elim
  · rw [fields_elided] at hfields
    exact (fields_groupsText_ne hne' hfields.symm).elim
  · rw [fields_elided, fields_elided] at hfields
    have hl := zeroRun_spec l
    have hl' := zeroRun_spec l'
    revert hfields hl hl'
    generalize l.take (zeroRun l).1 = a
    generalize l.drop ((zeroRun l).1 + (zeroRun l).2) = b
    generalize l'.take (zeroRun l').1 = a'
    generalize l'.drop ((zeroRun l').1 + (zeroRun l').2) = b'
    intro hfields hl hl'
    have hfront := congrArg (List.takeWhile fun s => !s.isEmpty) hfields
    rw [takeWhile_fields, takeWhile_fields] at hfront
    have hback := congrArg (List.rtakeWhile fun s => !s.isEmpty) hfields
    rw [rtakeWhile_fields, rtakeWhile_fields] at hback
    obtain rfl := toDigits_map_inj hfront
    obtain rfl := toDigits_map_inj hback
    have hrun : (zeroRun l).2 = (zeroRun l').2 := by
      have hsum := congrArg List.length hl
      have hsum' := congrArg List.length hl'
      simp only [List.length_append, List.length_replicate] at hsum hsum'
      omega
    rw [hl, hl', hrun]

/-- An elided text and one that is not both hold a colon. -/
theorem colon_mem_textOf {l : List ℕ} (h : 2 ≤ l.length) : ':' ∈ textOf l := by
  unfold textOf
  dsimp only
  split
  · by_contra hmem
    have hsingle := Text.fields_of_notMem hmem
    rw [fields_groupsText (by rintro rfl; simp at h)] at hsingle
    have hlength := congrArg List.length hsingle
    simp only [List.length_map, List.length_singleton] at hlength
    omega
  · simp

end Ip
end Lib
