import VardrMap.Lib.JsonText.Fuel

/-!
# What the hooks let through

A caller's hooks can only refuse more than another caller's. `Narrows.loads` says that then
every document it decodes is the one the other decodes, and that a property the parts hand
on from the bottom up holds of the whole: with hooks that refuse what a well-formed document
may not hold, every decoded document is well formed.
-/
namespace Lib

namespace Doc

/-- A document that can be written and read again: strings whose surrogates are joined, keys
that differ, integers of a bounded number of digits, no constant beyond JSON, and floats of
the kind allowed. -/
inductive WellFormed (floats : Text → Prop) : Doc → Prop where
  | null : WellFormed floats null
  | bool (b : Bool) : WellFormed floats (bool b)
  | int {n : ℤ} (h : (Nat.toDigits 10 n.natAbs).length ≤ maxDigits) : WellFormed floats (int n)
  | float {r : Text} (h : floats r) : WellFormed floats (float r)
  | str {s : Points} (h : s.Joined) : WellFormed floats (str s)
  | arr {xs : List Doc} (h : ∀ x ∈ xs, WellFormed floats x) : WellFormed floats (arr xs)
  | obj {fs : List (Points × Doc)} (hkeys : (fs.map Prod.fst).Nodup)
      (hjoined : ∀ p ∈ fs, p.1.Joined) (h : ∀ p ∈ fs, WellFormed floats p.2) :
      WellFormed floats (obj fs)

/-- Whatever the first reader accepts has the property, and the second reader takes it for
the same. -/
structure Narrows (R R' : Reader) (P : Doc → Prop) : Prop where
  null : P null
  bool : ∀ b, P (bool b)
  int : ∀ n : ℤ, (Nat.toDigits 10 n.natAbs).length ≤ maxDigits → P (int n)
  str : ∀ s : Points, s.Joined → P (str s)
  arr : ∀ xs, (∀ x ∈ xs, P x) → P (arr xs)
  float : ∀ t x, R.float t = some x → P x ∧ R'.float t = some x
  constant : ∀ t x, R.constant t = some x → P x ∧ R'.constant t = some x
  pairs : ∀ fs x, (∀ p ∈ fs, p.1.Joined ∧ P p.2) → R.pairs fs = some x →
    P x ∧ R'.pairs fs = some x

/-- The first outcome is one with the property, and the second is the same. -/
def Within {α : Type} (P : α → Prop) (a b : Except Fault (α × Text)) : Prop :=
  ∀ p, a = .ok p → P p.1 ∧ b = .ok p

theorem within_error {α : Type} {P : α → Prop} (e : Fault) (b : Except Fault (α × Text)) :
    Within P (.error e) b := by
  intro p h
  cases h

theorem within_ok {α : Type} {P : α → Prop} {x : α} (h : P x) (t : Text) :
    Within P (.ok (x, t)) (.ok (x, t)) := by
  rintro p ⟨⟩
  exact ⟨h, rfl⟩

theorem Within.bind {α β : Type} {P : α → Prop} {Q : β → Prop} {a b : Except Fault (α × Text)}
    {f g : α × Text → Except Fault (β × Text)} (h : Within P a b)
    (hf : ∀ p, P p.1 → Within Q (f p) (g p)) : Within Q (a >>= f) (b >>= g) := by
  cases a with
  | error e => exact within_error e _
  | ok p =>
    obtain ⟨hp, rfl⟩ := h p rfl
    exact hf p hp

theorem within_follow {α : Type} {P : α → Prop} {close : Char}
    {more more' : Text → Except Fault (List α × Text)}
    (h : ∀ t, Within (fun xs => ∀ x ∈ xs, P x) (more t) (more' t)) {x : α} (hx : P x) (t : Text) :
    Within (fun xs => ∀ x ∈ xs, P x) (follow close more x t) (follow close more' x t) := by
  unfold follow
  cases skip t with
  | nil => exact within_error _ _
  | cons c u =>
    simp only
    split_ifs
    · exact (h (skip u)).bind fun p hp => within_ok (List.forall_mem_cons.mpr ⟨hx, hp⟩) p.2
    · exact within_ok (List.forall_mem_singleton.mpr hx) u
    · exact within_error _ _

/-! ## Numbers -/

theorem whole?_eq_some {t w u : Text} (h : whole? t = some (w, u)) :
    w ≠ [] ∧ ∀ c ∈ w, c.isDigit = true := by
  cases t with
  | nil => simp [whole?] at h
  | cons c t =>
    simp only [whole?] at h
    split_ifs at h with hzero hdigit
    · cases h
      exact ⟨by simp, by simp⟩
    · cases h
      exact ⟨by simp, List.forall_mem_cons.mpr ⟨hdigit, fun d hd => List.mem_takeWhile_imp hd⟩⟩

/-- A number is below the power of ten of its digits. -/
theorem ofDigitChars_lt {w : Text} (h : ∀ c ∈ w, c.isDigit = true) :
    Nat.ofDigitChars 10 w 0 < 10 ^ w.length := by
  induction w with
  | nil => simp
  | cons c w ih =>
    have hrest := ih fun d hd => h d (List.mem_cons_of_mem _ hd)
    have hdigit := h c List.mem_cons_self
    have hle : c.toNat - '0'.toNat ≤ 9 := by
      rw [Char.isDigit_iff_toNat] at hdigit
      have h0 : '0'.toNat = 48 := rfl
      have h9 : '9'.toNat = 57 := rfl
      omega
    have hmul := Nat.mul_le_mul_left (10 ^ w.length) hle
    rw [Nat.ofDigitChars_cons, Nat.ofDigitChars_eq_ofDigitChars_zero, List.length_cons, pow_succ,
      Nat.mul_zero, Nat.zero_add]
    omega

theorem natAbs_signed (negative : Bool) (w : Text) :
    (signed negative w).natAbs = Nat.ofDigitChars 10 w 0 := by
  unfold signed
  split_ifs <;> simp

/-- An integer that is read has no more digits than its text. -/
theorem length_digits_signed {t w u : Text} (h : whole? t = some (w, u)) (negative : Bool) :
    (Nat.toDigits 10 (signed negative w).natAbs).length ≤ w.length := by
  obtain ⟨hne, hdigits⟩ := whole?_eq_some h
  rw [natAbs_signed, Nat.length_toDigits_le_iff (by decide) (List.length_pos_iff.mpr hne)]
  exact ofDigitChars_lt hdigits

namespace Narrows

variable {R R' : Reader} {P : Doc → Prop}

theorem hooked {x x' : Option Doc} (h : ∀ y, x = some y → P y ∧ x' = some y) (t : Text) :
    Within P (hooked x t) (hooked x' t) := by
  cases x with
  | none => exact within_error _ _
  | some y =>
    obtain ⟨hy, rfl⟩ := h y rfl
    exact within_ok hy t

theorem unsigned (h : Narrows R R' P) (negative : Bool) (t : Text) :
    Within P (unsigned R negative t) (unsigned R' negative t) := by
  unfold Doc.unsigned
  cases hwhole : whole? t with
  | none => exact within_error _ _
  | some p =>
    simp only
    by_cases hint : ((fraction p.2).1.isEmpty && (exponent (fraction p.2).2).1.isEmpty) = true
    · rw [if_pos hint, if_pos hint, integer]
      split_ifs with hlong
      · exact within_error _ _
      · exact within_ok (h.int _ ((length_digits_signed hwhole negative).trans (not_lt.mp hlong))) _
    · rw [if_neg hint, if_neg hint]
      exact hooked (h.float _) _

theorem number (h : Narrows R R' P) (t : Text) : Within P (number R t) (number R' t) := by
  cases t with
  | nil => exact within_error _ _
  | cons c t =>
    simp only [Doc.number]
    split_ifs
    · exact h.unsigned true t
    · exact h.unsigned false (c :: t)

/-- Both readers know the same words. -/
theorem word? (h : Narrows R R' P) (c : Char) : (word? R c = none ∧ word? R' c = none) ∨
    ∃ w x x', word? R c = some (w, x) ∧ word? R' c = some (w, x') ∧
      ∀ y, x = some y → P y ∧ x' = some y := by
  have hword : ∀ d : Doc, P d → ∀ y, some d = some y → P y ∧ some d = some y := by
    rintro d hd y ⟨⟩
    exact ⟨hd, rfl⟩
  unfold Doc.word?
  split_ifs
  · exact .inr ⟨_, _, _, rfl, rfl, hword _ h.null⟩
  · exact .inr ⟨_, _, _, rfl, rfl, hword _ (h.bool true)⟩
  · exact .inr ⟨_, _, _, rfl, rfl, hword _ (h.bool false)⟩
  · exact .inr ⟨_, _, _, rfl, rfl, h.constant _⟩
  · exact .inr ⟨_, _, _, rfl, rfl, h.constant _⟩
  · exact .inr ⟨_, _, _, rfl, rfl, h.constant _⟩
  · exact .inl ⟨rfl, rfl⟩

theorem scalar (h : Narrows R R' P) (c : Char) (t : Text) :
    Within P (scalar R c t) (scalar R' c t) := by
  unfold Doc.scalar
  rcases h.word? c with ⟨hR, hR'⟩ | ⟨w, x, x', hR, hR', hx⟩
  · rw [hR, hR']
    exact h.number (c :: t)
  · rw [hR, hR']
    simp only
    cases w.isPrefixOf? t with
    | none => exact h.number (c :: t)
    | some u => exact hooked hx u

theorem array (h : Narrows R R' P) {elements elements' : Text → Except Fault (List Doc × Text)}
    (helements : ∀ t, Within (fun xs => ∀ x ∈ xs, P x) (elements t) (elements' t)) (t : Text) :
    Within P (array elements t) (array elements' t) := by
  unfold Doc.array
  cases skip t with
  | nil => exact within_error _ _
  | cons c u =>
    simp only
    split_ifs
    · exact within_ok (h.arr [] (by simp)) u
    · exact (helements (c :: u)).bind fun p hp => within_ok (h.arr p.1 hp) p.2

theorem object (h : Narrows R R' P)
    {members members' : Text → Except Fault (List (Points × Doc) × Text)}
    (hmembers : ∀ t, Within (fun fs => ∀ p ∈ fs, p.1.Joined ∧ P p.2) (members t) (members' t))
    (t : Text) : Within P (object R members t) (object R' members' t) := by
  unfold Doc.object
  cases skip t with
  | nil => exact within_error _ _
  | cons c u =>
    simp only
    split_ifs
    · exact hooked (fun x => h.pairs [] x (by simp)) u
    · exact (hmembers (c :: u)).bind fun p hp => hooked (fun x => h.pairs p.1 x hp) p.2

theorem within_string (t : Text) :
    Within Points.Joined (Points.string t) (Points.string t) := by
  intro p hp
  rcases Points.string_cases t with h | ⟨w, s, r, rfl, hs, -, htakes⟩
  · rw [h] at hp
    cases hp
  · rw [htakes] at hp ⊢
    cases hp
    exact ⟨hs, rfl⟩

theorem within_key (t : Text) : Within Points.Joined (key t) (key t) := by
  cases t with
  | nil => exact within_error _ _
  | cons c t =>
    simp only [key]
    split_ifs
    · refine (within_string t).bind fun p hp => ?_
      unfold colon
      cases skip p.2 with
      | nil => exact within_error _ _
      | cons d u =>
        simp only
        split_ifs
        · exact within_ok hp _
        · exact within_error _ _
    · exact within_error _ _

theorem fuel (h : Narrows R R' P) (n : ℕ) :
    (∀ t, Within P (value R n t) (value R' n t)) ∧
      (∀ t, Within (fun xs => ∀ x ∈ xs, P x) (elements R n t) (elements R' n t)) ∧
      ∀ t, Within (fun fs => ∀ p ∈ fs, p.1.Joined ∧ P p.2) (members R n t) (members R' n t) := by
  induction n with
  | zero =>
    exact ⟨fun _ => within_error _ _, fun _ => within_error _ _, fun _ => within_error _ _⟩
  | succ n ih =>
    obtain ⟨hvalue, helements, hmembers⟩ := ih
    refine ⟨fun t => ?_, fun t => ?_, fun t => ?_⟩
    · simp only [value]
      cases t with
      | nil => exact within_error _ _
      | cons c t =>
        simp only [scanOnce]
        split_ifs
        · intro p hp
          cases hstring : Points.string t with
          | error e =>
            rw [hstring] at hp
            cases hp
          | ok q =>
            rw [hstring] at hp
            cases hp
            exact ⟨h.str q.1 (within_string t q hstring).1, rfl⟩
        · exact h.array helements t
        · exact h.object hmembers t
        · exact h.scalar c t
    · simp only [elements]
      exact (hvalue t).bind fun p hp => within_follow helements hp p.2
    · simp only [members]
      refine (within_key t).bind fun k hk => ?_
      exact (hvalue (skip k.2)).bind fun p hp => within_follow hmembers ⟨hk, hp⟩ p.2

/-- What the narrower reader decodes has the property and is decoded to the same by the
other. -/
theorem loads (h : Narrows R R' P) {t : Text} {x : Doc} (hx : loads R t = .ok x) :
    P x ∧ loads R' t = .ok x := by
  rw [loads_eq_ok_iff] at hx
  obtain ⟨fuel, r, hvalue, hblank⟩ := hx
  obtain ⟨hP, hvalue'⟩ := (h.fuel fuel).1 (skip t) _ hvalue
  exact ⟨hP, loads_eq_ok_iff.mpr ⟨fuel, r, hvalue', hblank⟩⟩

end Narrows

end Doc
end Lib
