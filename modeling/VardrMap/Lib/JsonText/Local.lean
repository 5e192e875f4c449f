import VardrMap.Lib.JsonText.Fuel

/-!
# A document at the start of a text

When a text is read up to some point, or is refused for a number or by a hook, then so is
every text that goes on after it with a character that cannot continue a number.
-/
namespace Lib

namespace Doc

/-- A character that can belong to a number. -/
def numeric (c : Char) : Bool :=
  c.isDigit || c == '.' || c == 'e' || c == 'E' || c == '+' || c == '-'

/-- A text that does not continue a number. -/
def Stops (s : Text) : Prop := ∀ c ∈ s.head?, numeric c = false

/-- Two outcomes, the second with `s` after the first one's text: nothing that was read or
refused for good changes. -/
inductive Local {α : Type} (s : Text) :
    Except Fault (α × Text) → Except Fault (α × Text) → Prop where
  | ok (x : α) (t : Text) : Local s (.ok (x, t)) (.ok (x, t ++ s))
  | refused (e : Fault) : Local s (.error e) (.error e)
  | malformed (b : Except Fault (α × Text)) : Local s (.error .malformed) b
  | exhausted (b : Except Fault (α × Text)) : Local s (.error .exhausted) b

theorem Local.bind {α β : Type} {s : Text} {a b : Except Fault (α × Text)}
    {f g : α × Text → Except Fault (β × Text)} (h : Local s a b)
    (hf : ∀ x t, Local s (f (x, t)) (g (x, t ++ s))) : Local s (a >>= f) (b >>= g) := by
  cases h with
  | ok x t => exact hf x t
  | refused e => exact .refused e
  | malformed => exact .malformed _
  | exhausted => exact .exhausted _

theorem Local.map {α β : Type} {s : Text} {a b : Except Fault (α × Text)} (h : Local s a b)
    (f : α → β) : Local s (a.map fun p => (f p.1, p.2)) (b.map fun p => (f p.1, p.2)) := by
  cases h with
  | ok x t => exact .ok _ t
  | refused e => exact .refused e
  | malformed => exact .malformed _
  | exhausted => exact .exhausted _

/-! ## Numbers -/

variable {s : Text}

theorem Stops.of_head {c : Char} (h : numeric c = false) (t : Text) : Stops (c :: t) := by
  rintro d ⟨⟩
  exact h

theorem takeWhile_isDigit_append (hs : Stops s) (t : Text) :
    (t ++ s).takeWhile Char.isDigit = t.takeWhile Char.isDigit ∧
      (t ++ s).dropWhile Char.isDigit = t.dropWhile Char.isDigit ++ s := by
  induction t with
  | nil =>
    cases s with
    | nil => exact ⟨rfl, rfl⟩
    | cons c s =>
      have hdigit : c.isDigit = false := by
        have hc := hs c rfl
        simp only [numeric, Bool.or_eq_false_iff] at hc
        exact hc.1.1.1.1.1
      simp [hdigit]
  | cons c t ih =>
    cases hc : c.isDigit with
    | true => simp [hc, ih.1, ih.2]
    | false => simp [hc]

theorem whole?_append (hs : Stops s) {t w u : Text} (h : whole? t = some (w, u)) :
    whole? (t ++ s) = some (w, u ++ s) := by
  cases t with
  | nil => cases h
  | cons c t =>
    obtain ⟨htake, hdrop⟩ := takeWhile_isDigit_append hs t
    simp only [whole?] at h
    simp only [List.cons_append, whole?, htake, hdrop]
    split_ifs at h ⊢
    · cases h
      rfl
    · cases h
      rfl

theorem fraction_append (hs : Stops s) (t : Text) :
    fraction (t ++ s) = ((fraction t).1, (fraction t).2 ++ s) := by
  cases t with
  | nil =>
    cases s with
    | nil => rfl
    | cons c s =>
      have hc := hs c rfl
      simp only [numeric, Bool.or_eq_false_iff, beq_eq_false_iff_ne] at hc
      simp [fraction, hc.1.1.1.1.2]
  | cons c t =>
    obtain ⟨htake, hdrop⟩ := takeWhile_isDigit_append hs t
    simp only [List.cons_append, fraction, htake, hdrop]
    split_ifs <;> rfl

theorem sign_append (hs : Stops s) (t : Text) : sign (t ++ s) = ((sign t).1, (sign t).2 ++ s) := by
  cases t with
  | nil =>
    cases s with
    | nil => rfl
    | cons c s =>
      have hc := hs c rfl
      simp only [numeric, Bool.or_eq_false_iff, beq_eq_false_iff_ne] at hc
      simp [sign, hc.1.2, hc.2]
  | cons c t =>
    simp only [List.cons_append, sign]
    split_ifs <;> rfl

theorem exponent_append (hs : Stops s) (t : Text) :
    exponent (t ++ s) = ((exponent t).1, (exponent t).2 ++ s) := by
  cases t with
  | nil =>
    cases s with
    | nil => rfl
    | cons c s =>
      have hc := hs c rfl
      simp only [numeric, Bool.or_eq_false_iff, beq_eq_false_iff_ne] at hc
      simp [exponent, hc.1.1.1.2, hc.1.1.2]
  | cons c t =>
    obtain ⟨htake, hdrop⟩ := takeWhile_isDigit_append hs (sign t).2
    simp only [List.cons_append, exponent, sign_append hs, htake, hdrop]
    split_ifs <;> rfl

variable {R : Reader}

theorem local_hooked (x : Option Doc) (t : Text) : Local s (hooked x t) (hooked x (t ++ s)) := by
  cases x with
  | none => exact .refused _
  | some x => exact .ok x t

theorem local_unsigned (hs : Stops s) (negative : Bool) (t : Text) :
    Local s (unsigned R negative t) (unsigned R negative (t ++ s)) := by
  cases hwhole : whole? t with
  | none =>
    rw [unsigned, hwhole]
    exact .malformed _
  | some p =>
    rw [unsigned, hwhole, unsigned, whole?_append hs hwhole]
    simp only [fraction_append hs, exponent_append hs, integer]
    split_ifs
    · exact .refused _
    · exact .ok _ _
    · exact local_hooked _ _

theorem local_number (hs : Stops s) (t : Text) : Local s (number R t) (number R (t ++ s)) := by
  cases t with
  | nil => exact .malformed _
  | cons c t =>
    simp only [number, List.cons_append]
    split_ifs
    · exact local_unsigned hs true t
    · exact local_unsigned hs false (c :: t)

/-! ## Words -/

theorem isPrefixOf?_append {w t u : Text} (h : w.isPrefixOf? t = some u) (s : Text) :
    w.isPrefixOf? (t ++ s) = some (u ++ s) := by
  induction w generalizing t with
  | nil =>
    rw [List.isPrefixOf?, Option.some.injEq] at h
    rw [h, List.isPrefixOf?]
  | cons c w ih =>
    cases t with
    | nil => simp [List.isPrefixOf?] at h
    | cons d t =>
      simp only [List.isPrefixOf?] at h
      split_ifs at h with hd
      rw [List.cons_append, List.isPrefixOf?, if_pos hd]
      exact ih h

/-- What starts like a word is a number only after a minus sign. -/
theorem number_of_word? {c : Char} {w : Text} {x : Option Doc} (h : word? R c = some (w, x))
    (t : Text) : number R (c :: t) = .error .malformed ∨
      w.head? = some 'I' ∧ number R (c :: t) = unsigned R true t := by
  unfold word? at h
  split_ifs at h with hn ht hf hN hI hminus
  · subst hn
    exact .inl rfl
  · subst ht
    exact .inl rfl
  · subst hf
    exact .inl rfl
  · subst hN
    exact .inl rfl
  · subst hI
    exact .inl rfl
  · subst hminus
    cases h
    exact .inr ⟨rfl, rfl⟩

theorem local_scalar (hs : Stops s) (c : Char) (t : Text) :
    Local s (scalar R c t) (scalar R c (t ++ s)) := by
  have hnumber := local_number (R := R) hs (c :: t)
  unfold scalar
  cases hword : word? R c with
  | none => exact hnumber
  | some p =>
    simp only
    cases hprefix : p.1.isPrefixOf? t with
    | some u =>
      rw [isPrefixOf?_append hprefix]
      exact local_hooked p.2 u
    | none =>
      simp only
      rcases number_of_word? hword t with hmalformed | ⟨hhead, hminus⟩
      · rw [hmalformed]
        exact .malformed _
      · cases t with
        | nil =>
          rw [hminus]
          exact .malformed _
        | cons d t =>
          by_cases hd : d = 'I'
          · subst hd
            rw [hminus]
            exact .malformed _
          · have hnone : p.1.isPrefixOf? (d :: t ++ s) = none := by
              obtain ⟨w, hw⟩ : ∃ w, p.1 = 'I' :: w := ⟨_, List.eq_cons_of_mem_head? hhead⟩
              rw [hw, List.cons_append, List.isPrefixOf?, if_neg (by simpa using Ne.symm hd)]
            rw [hnone]
            exact hnumber

/-! ## The recursion -/

theorem skip_append {t u : Text} {c : Char} (h : skip t = c :: u) (s : Text) :
    skip (t ++ s) = c :: u ++ s := by
  have hne : t.dropWhile blank ≠ [] := by
    rw [skip] at h
    rw [h]
    exact List.cons_ne_nil _ _
  rw [skip, List.dropWhile_append, if_neg (by simpa using hne), ← skip, h]

/-- Blanks before a part; at the end of the first text there is no part. -/
theorem Local.skip {α : Type} {f g : Text → Except Fault (α × Text)}
    (h : ∀ t, Local s (f t) (g (t ++ s))) (hnil : ∀ b, Local s (f []) b) (t : Text) :
    Local s (f (skip t)) (g (Doc.skip (t ++ s))) := by
  cases ht : Doc.skip t with
  | nil => exact hnil _
  | cons c u =>
    rw [skip_append ht]
    exact h (c :: u)

theorem local_follow {α : Type} {close : Char} {more more' : Text → Except Fault (List α × Text)}
    (h : ∀ t, Local s (more t) (more' (t ++ s))) (hnil : ∀ b, Local s (more []) b) (x : α)
    (t : Text) : Local s (follow close more x t) (follow close more' x (t ++ s)) := by
  unfold follow
  cases ht : skip t with
  | nil => exact .malformed _
  | cons c u =>
    rw [skip_append ht]
    simp only [List.cons_append]
    split_ifs
    · exact (Local.skip h hnil u).bind fun xs v => .ok (x :: xs) v
    · exact .ok [x] u
    · exact .malformed _

theorem local_array {elements elements' : Text → Except Fault (List Doc × Text)}
    (h : ∀ t, Local s (elements t) (elements' (t ++ s))) (t : Text) :
    Local s (array elements t) (array elements' (t ++ s)) := by
  unfold array
  cases ht : skip t with
  | nil => exact .malformed _
  | cons c u =>
    rw [skip_append ht]
    simp only [List.cons_append]
    split_ifs
    · exact .ok (arr []) u
    · exact (h (c :: u)).bind fun xs v => .ok (arr xs) v

theorem local_object {members members' : Text → Except Fault (List (Points × Doc) × Text)}
    (h : ∀ t, Local s (members t) (members' (t ++ s))) (t : Text) :
    Local s (object R members t) (object R members' (t ++ s)) := by
  unfold object
  cases ht : skip t with
  | nil => exact .malformed _
  | cons c u =>
    rw [skip_append ht]
    simp only [List.cons_append]
    split_ifs
    · exact local_hooked _ u
    · exact (h (c :: u)).bind fun fs v => local_hooked _ v

theorem local_string (t : Text) : Local s (Points.string t) (Points.string (t ++ s)) := by
  rcases Points.string_cases t with h | ⟨w, x, r, rfl, -, -, htakes⟩
  · rw [h]
    exact .malformed _
  · rw [List.append_assoc, htakes, htakes]
    exact .ok x r

theorem local_key (t : Text) : Local s (key t) (key (t ++ s)) := by
  cases t with
  | nil => exact .malformed _
  | cons c t =>
    simp only [key, List.cons_append]
    split_ifs
    · refine (local_string t).bind fun k u => ?_
      unfold colon
      simp only
      cases hu : skip u with
      | nil => exact .malformed _
      | cons d v =>
        rw [skip_append hu]
        simp only [List.cons_append]
        split_ifs
        · exact .ok k v
        · exact .malformed _
    · exact .malformed _

/-- Nothing starts at the end of the text. -/
theorem value_nil (fuel : ℕ) :
    value R fuel [] = .error .malformed ∨ value R fuel [] = .error .exhausted := by
  cases fuel with
  | zero => exact .inr rfl
  | succ fuel => exact .inl rfl

theorem local_nil {α : Type} {a : Except Fault (α × Text)}
    (h : a = .error .malformed ∨ a = .error .exhausted) (b : Except Fault (α × Text)) :
    Local s a b := by
  rcases h with rfl | rfl
  · exact .malformed b
  · exact .exhausted b

theorem elements_nil (fuel : ℕ) :
    elements R fuel [] = .error .malformed ∨ elements R fuel [] = .error .exhausted := by
  cases fuel with
  | zero => exact .inr rfl
  | succ fuel =>
    rw [elements]
    rcases value_nil (R := R) fuel with h | h
    · exact .inl (by rw [h]; rfl)
    · exact .inr (by rw [h]; rfl)

theorem members_nil (fuel : ℕ) :
    members R fuel [] = .error .malformed ∨ members R fuel [] = .error .exhausted := by
  cases fuel with
  | zero => exact .inr rfl
  | succ fuel => exact .inl (by rw [members]; rfl)

/-- With any fuel, an outcome is kept when the text goes on. -/
theorem local_fuel (hs : Stops s) (fuel : ℕ) :
    (∀ t, Local s (value R fuel t) (value R fuel (t ++ s))) ∧
      (∀ t, Local s (elements R fuel t) (elements R fuel (t ++ s))) ∧
      ∀ t, Local s (members R fuel t) (members R fuel (t ++ s)) := by
  induction fuel with
  | zero => exact ⟨fun _ => .exhausted _, fun _ => .exhausted _, fun _ => .exhausted _⟩
  | succ fuel ih =>
    obtain ⟨hvalue, helements, hmembers⟩ := ih
    refine ⟨fun t => ?_, fun t => ?_, fun t => ?_⟩
    · cases t with
      | nil => exact .malformed _
      | cons c t =>
        simp only [value, scanOnce, List.cons_append]
        split_ifs
        · exact (local_string t).map str
        · exact local_array helements t
        · exact local_object hmembers t
        · exact local_scalar hs c t
    · simp only [elements]
      exact (hvalue t).bind fun x u =>
        local_follow helements (local_nil (elements_nil fuel)) x u
    · simp only [members]
      refine (local_key t).bind fun k u => ?_
      refine (Local.skip hvalue (local_nil (value_nil fuel)) u).bind fun x v => ?_
      exact local_follow hmembers (local_nil (members_nil fuel)) (k, x) v

/-- A text that starts with a document and goes on after it, not with blanks only, is none: if
the longer text is a document, its beginning is not. -/
theorem loads_append {t : Text} (hs : Stops s) (hlast : ∃ c ∈ s, blank c = false)
    (hhead : ∃ c u, t = c :: u ∧ blank c = false) {x : Doc} (h : loads R (t ++ s) = .ok x) :
    loads R t = .error .malformed := by
  have hskip : ∀ v, skip (t ++ v) = t ++ v := by
    intro v
    obtain ⟨c, u, rfl, hc⟩ := hhead
    simp [skip, hc]
  have hskip' := hskip []
  rw [List.append_nil] at hskip'
  obtain ⟨n, r, hn, hblank⟩ := loads_eq_ok_iff.mp h
  rw [hskip] at hn
  have hlength : 2 * t.length + 1 ≤ 2 * (t ++ s).length + 1 := by
    rw [List.length_append]
    omega
  have hwhole := value_eq_of_ne (by rw [hn]; simp) (le_refl (2 * (t ++ s).length + 1))
  have hsafe := (safe_fuel (R := R) (2 * (t ++ s).length + 1)).1 t hlength
  have hlocal := (local_fuel (R := R) hs (2 * (t ++ s).length + 1)).1 t
  rw [hwhole, hn] at hlocal
  generalize hvalue : value R (2 * (t ++ s).length + 1) t = a at hlocal
  cases hlocal with
  | ok x u =>
    obtain ⟨c, hc, hcblank⟩ := hlast
    rw [skip, List.dropWhile_eq_nil_iff] at hblank
    have hall := hblank c (List.mem_append_right u hc)
    rw [hcblank] at hall
    cases hall
  | malformed =>
    have hne : value R (2 * (t ++ s).length + 1) (skip t) ≠ .error .exhausted := by
      rw [hskip', hvalue]
      simp
    have hload := loads_eq_of_ne hne
    rw [hload, hskip', hvalue]
    rfl
  | exhausted => exact (hsafe.ne_exhausted hvalue).elim

end Doc
end Lib
