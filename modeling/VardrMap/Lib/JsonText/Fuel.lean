import VardrMap.Lib.JsonText

/-!
# The fuel of the decoder

More fuel never changes an outcome that is not exhaustion, and fuel for twice the length of
the text is always enough. So the outcome of a run with any fuel that yields a document is
the outcome of `loads`.
-/
namespace Lib

namespace Doc

/-! ## More fuel -/

/-- An exhausted run is below every other outcome. -/
def Below {α : Type} (a b : Except Fault α) : Prop := a = .error .exhausted ∨ a = b

theorem Below.refl {α : Type} (a : Except Fault α) : Below a a := .inr rfl

theorem Below.bind {α β : Type} {a b : Except Fault α} {f g : α → Except Fault β}
    (h : Below a b) (hf : ∀ x, Below (f x) (g x)) : Below (a >>= f) (b >>= g) := by
  rcases h with rfl | rfl
  · exact .inl rfl
  · cases a with
    | error e => exact .refl _
    | ok x => exact hf x

variable {R : Reader}

theorem below_follow {α : Type} {close : Char} {more more' : Text → Except Fault (List α × Text)}
    (h : ∀ t, Below (more t) (more' t)) (x : α) (t : Text) :
    Below (follow close more x t) (follow close more' x t) := by
  unfold follow
  cases skip t with
  | nil => exact .refl _
  | cons c u =>
    by_cases hc : c = ','
    · simp only [if_pos hc]
      exact (h _).bind fun _ => .refl _
    · simp only [if_neg hc]
      exact .refl _

theorem below_array {elements elements' : Text → Except Fault (List Doc × Text)}
    (h : ∀ t, Below (elements t) (elements' t)) (t : Text) :
    Below (array elements t) (array elements' t) := by
  unfold array
  cases skip t with
  | nil => exact .refl _
  | cons c u =>
    by_cases hc : c = ']'
    · simp only [if_pos hc]
      exact .refl _
    · simp only [if_neg hc]
      exact (h _).bind fun _ => .refl _

theorem below_object {members members' : Text → Except Fault (List (Points × Doc) × Text)}
    (h : ∀ t, Below (members t) (members' t)) (t : Text) :
    Below (object R members t) (object R members' t) := by
  unfold object
  cases skip t with
  | nil => exact .refl _
  | cons c u =>
    by_cases hc : c = '}'
    · simp only [if_pos hc]
      exact .refl _
    · simp only [if_neg hc]
      exact (h _).bind fun _ => .refl _

theorem below_scanOnce {elements elements' : Text → Except Fault (List Doc × Text)}
    {members members' : Text → Except Fault (List (Points × Doc) × Text)}
    (helements : ∀ t, Below (elements t) (elements' t))
    (hmembers : ∀ t, Below (members t) (members' t)) (t : Text) :
    Below (scanOnce R elements members t) (scanOnce R elements' members' t) := by
  cases t with
  | nil => exact .refl _
  | cons c t =>
    unfold scanOnce
    by_cases hquote : c = '"'
    · simp only [if_pos hquote]
      exact .refl _
    by_cases hbracket : c = '['
    · simp only [if_neg hquote, if_pos hbracket]
      exact below_array helements t
    by_cases hbrace : c = '{'
    · simp only [if_neg hquote, if_neg hbracket, if_pos hbrace]
      exact below_object hmembers t
    · simp only [if_neg hquote, if_neg hbracket, if_neg hbrace]
      exact .refl _

theorem below_succ (fuel : ℕ) :
    (∀ t, Below (value R fuel t) (value R (fuel + 1) t)) ∧
      (∀ t, Below (elements R fuel t) (elements R (fuel + 1) t)) ∧
      ∀ t, Below (members R fuel t) (members R (fuel + 1) t) := by
  induction fuel with
  | zero => exact ⟨fun _ => .inl rfl, fun _ => .inl rfl, fun _ => .inl rfl⟩
  | succ fuel ih =>
    obtain ⟨hvalue, helements, hmembers⟩ := ih
    refine ⟨fun t => ?_, fun t => ?_, fun t => ?_⟩
    · simp only [value]
      exact below_scanOnce helements hmembers t
    · simp only [elements]
      exact (hvalue t).bind fun p => below_follow helements p.1 p.2
    · simp only [members]
      exact (Below.refl _).bind fun k => (hvalue (skip k.2)).bind fun p => below_follow hmembers _ p.2

/-- An outcome that is not exhaustion stays with more fuel. -/
theorem stable_of_le {α : Type} {run : ℕ → Except Fault α}
    (hrun : ∀ fuel, Below (run fuel) (run (fuel + 1))) {fuel fuel' : ℕ} (hle : fuel ≤ fuel')
    (h : run fuel ≠ .error .exhausted) : run fuel' = run fuel := by
  induction hle with
  | refl => rfl
  | @step m _ ih =>
    rcases hrun m with hm | hm
    · rw [ih] at hm
      exact absurd hm h
    · rw [← hm, ih]

/-! ## Enough fuel -/

/-- The outcome is not exhaustion, and less than `n` characters are left. -/
structure Safe {α : Type} (n : ℕ) (a : Except Fault (α × Text)) : Prop where
  ne_exhausted : a ≠ .error .exhausted
  lt : ∀ x t, a = .ok (x, t) → t.length < n

theorem safe_malformed {α : Type} (n : ℕ) : Safe n (.error .malformed : Except Fault (α × Text)) :=
  ⟨by simp, by simp⟩

theorem safe_ok {α : Type} {n : ℕ} {x : α} {t : Text} (h : t.length < n) : Safe n (.ok (x, t)) :=
  ⟨by simp, fun _ _ ht => by
    cases ht
    exact h⟩

theorem Safe.mono {α : Type} {m n : ℕ} {a : Except Fault (α × Text)} (h : Safe m a) (hle : m ≤ n) :
    Safe n a :=
  ⟨h.ne_exhausted, fun x t ht => lt_of_lt_of_le (h.lt x t ht) hle⟩

theorem Safe.bind {α β : Type} {m n : ℕ} {a : Except Fault (α × Text)}
    {f : α × Text → Except Fault (β × Text)} (h : Safe m a)
    (hf : ∀ p, p.2.length < m → Safe n (f p)) : Safe n (a >>= f) := by
  cases a with
  | error e => exact ⟨fun he => h.ne_exhausted (by cases he; rfl), fun _ _ ht => by cases ht⟩
  | ok p => exact hf p (h.lt _ _ rfl)

theorem Safe.map {α β : Type} {n : ℕ} {a : Except Fault (α × Text)} (h : Safe n a) (f : α → β) :
    Safe n (a.map fun p => (f p.1, p.2)) := by
  cases a with
  | error e => exact ⟨fun he => h.ne_exhausted (by cases he; rfl), fun _ _ ht => by cases ht⟩
  | ok p => exact safe_ok (h.lt _ _ rfl)

theorem length_skip_le (t : Text) : (skip t).length ≤ t.length :=
  (List.dropWhile_sublist _).length_le

theorem safe_hooked {n : ℕ} {t : Text} (h : t.length < n) (x : Option Doc) :
    Safe n (hooked x t) := by
  cases x with
  | none => exact ⟨by simp [hooked], by simp [hooked]⟩
  | some x => exact safe_ok h

theorem length_whole? {t u w : Text} (h : whole? t = some (w, u)) : u.length < t.length := by
  cases t with
  | nil => simp [whole?] at h
  | cons c t =>
    simp only [whole?] at h
    split_ifs at h
    · cases h
      exact Nat.lt_succ_self _
    · cases h
      exact Nat.lt_succ_of_le (List.dropWhile_sublist _).length_le

theorem length_fraction_le (t : Text) : (fraction t).2.length ≤ t.length := by
  cases t with
  | nil => exact le_rfl
  | cons c t =>
    simp only [fraction]
    split_ifs
    · exact Nat.le_succ_of_le (List.dropWhile_sublist _).length_le
    · exact le_rfl

theorem length_sign_le (t : Text) : (sign t).2.length ≤ t.length := by
  cases t with
  | nil => exact le_rfl
  | cons c t =>
    simp only [sign]
    split_ifs
    · exact Nat.le_succ _
    · exact le_rfl

theorem length_exponent_le (t : Text) : (exponent t).2.length ≤ t.length := by
  cases t with
  | nil => exact le_rfl
  | cons c t =>
    simp only [exponent]
    split_ifs
    · exact Nat.le_succ_of_le ((List.dropWhile_sublist _).length_le.trans (length_sign_le t))
    · exact le_rfl

theorem safe_integer {n : ℕ} {t : Text} (h : t.length < n) (negative : Bool) (digits : Text) :
    Safe n (integer negative digits t) := by
  unfold integer
  split_ifs
  · exact ⟨by simp, by simp⟩
  · exact safe_ok h

theorem safe_unsigned (negative : Bool) (t : Text) :
    Safe t.length (unsigned R negative t) := by
  unfold unsigned
  cases hwhole : whole? t with
  | none => exact safe_malformed _
  | some p =>
    have hwhole := length_whole? hwhole
    have hfraction := length_fraction_le p.2
    have hexponent := length_exponent_le (fraction p.2).2
    simp only
    split_ifs
    · exact safe_integer (by omega) negative p.1
    · exact safe_hooked (by omega) _

theorem safe_number (t : Text) : Safe t.length (number R t) := by
  cases t with
  | nil => exact safe_malformed _
  | cons c t =>
    simp only [number]
    split_ifs
    · exact (safe_unsigned true t).mono (Nat.le_succ _)
    · exact safe_unsigned false (c :: t)

theorem length_of_isPrefixOf? {w t u : Text} (h : w.isPrefixOf? t = some u) :
    u.length ≤ t.length := by
  induction w generalizing t with
  | nil =>
    rw [List.isPrefixOf?, Option.some.injEq] at h
    rw [h]
  | cons c w ih =>
    cases t with
    | nil => simp [List.isPrefixOf?] at h
    | cons d t =>
      simp only [List.isPrefixOf?] at h
      split_ifs at h
      exact Nat.le_succ_of_le (ih h)

theorem safe_scalar (c : Char) (t : Text) : Safe (c :: t).length (scalar R c t) := by
  unfold scalar
  cases word? R c with
  | none => exact safe_number (c :: t)
  | some p =>
    cases hword : p.1.isPrefixOf? t with
    | none =>
      simp only [hword]
      exact safe_number (c :: t)
    | some u =>
      simp only [hword]
      exact safe_hooked (Nat.lt_succ_of_le (length_of_isPrefixOf? hword)) p.2

theorem safe_string (t : Text) : Safe t.length (Points.string t) := by
  rcases Points.string_cases t with h | ⟨w, s, r, rfl, -, hne, htakes⟩
  · rw [h]
    exact safe_malformed _
  · rw [htakes]
    have hlength : 0 < w.length := List.length_pos_iff.mpr hne
    exact safe_ok (by rw [List.length_append]; omega)

theorem safe_colon (p : Points × Text) : Safe (p.2.length + 1) (colon p) := by
  have hskip := length_skip_le p.2
  unfold colon
  cases hcolon : skip p.2 with
  | nil => exact safe_malformed _
  | cons d v =>
    rw [hcolon, List.length_cons] at hskip
    simp only
    split_ifs
    · exact safe_ok (by omega)
    · exact safe_malformed _

theorem safe_key (t : Text) : Safe t.length (key t) := by
  cases t with
  | nil => exact safe_malformed _
  | cons c t =>
    simp only [key]
    split_ifs
    · refine (safe_string t).bind fun p hp => ?_
      exact (safe_colon p).mono (by rw [List.length_cons]; omega)
    · exact safe_malformed _

theorem safe_follow {α : Type} {close : Char} {more : Text → Except Fault (List α × Text)} {n : ℕ}
    (h : ∀ t, t.length < n → Safe n (more t)) (x : α) {t : Text} (ht : t.length ≤ n) :
    Safe n (follow close more x t) := by
  have hskip := length_skip_le t
  unfold follow
  cases hnext : skip t with
  | nil => exact safe_malformed _
  | cons c u =>
    have hskip' := length_skip_le u
    rw [hnext, List.length_cons] at hskip
    simp only
    split_ifs
    · exact (h (skip u) (by omega)).bind fun p hp => safe_ok hp
    · exact safe_ok (by omega)
    · exact safe_malformed _

theorem safe_array {elements : Text → Except Fault (List Doc × Text)} {t : Text}
    (h : ∀ u, u.length ≤ t.length → Safe u.length (elements u)) :
    Safe (t.length + 1) (array elements t) := by
  have hskip := length_skip_le t
  unfold array
  cases hnext : skip t with
  | nil => exact safe_malformed _
  | cons c u =>
    rw [hnext, List.length_cons] at hskip
    simp only
    split_ifs
    · exact safe_ok (by omega)
    · exact (h (c :: u) hskip).bind fun p hp => safe_ok (by rw [List.length_cons] at hp; omega)

theorem safe_object {members : Text → Except Fault (List (Points × Doc) × Text)} {t : Text}
    (h : ∀ u, u.length ≤ t.length → Safe u.length (members u)) :
    Safe (t.length + 1) (object R members t) := by
  have hskip := length_skip_le t
  unfold object
  cases hnext : skip t with
  | nil => exact safe_malformed _
  | cons c u =>
    rw [hnext, List.length_cons] at hskip
    simp only
    split_ifs
    · exact safe_hooked (by omega) _
    · exact (h (c :: u) hskip).bind fun p hp =>
        safe_hooked (by rw [List.length_cons] at hp; omega) _

theorem safe_fuel (fuel : ℕ) :
    (∀ t : Text, 2 * t.length + 1 ≤ fuel → Safe t.length (value R fuel t)) ∧
      (∀ t : Text, 2 * t.length + 2 ≤ fuel → Safe t.length (elements R fuel t)) ∧
      ∀ t : Text, 2 * t.length + 2 ≤ fuel → Safe t.length (members R fuel t) := by
  induction fuel with
  | zero => exact ⟨fun _ h => by omega, fun _ h => by omega, fun _ h => by omega⟩
  | succ fuel ih =>
    obtain ⟨hvalue, helements, hmembers⟩ := ih
    refine ⟨fun t ht => ?_, fun t ht => ?_, fun t ht => ?_⟩
    · simp only [value]
      cases t with
      | nil => exact safe_malformed _
      | cons c t =>
        rw [List.length_cons] at ht
        simp only [scanOnce]
        split_ifs
        · exact ((safe_string t).map _).mono (Nat.le_succ _)
        · exact safe_array (fun u hu => helements u (by omega))
        · exact safe_object (fun u hu => hmembers u (by omega))
        · exact safe_scalar c t
    · simp only [elements]
      refine (hvalue t (by omega)).bind fun p hp => ?_
      exact safe_follow (fun v hv => (helements v (by omega)).mono (by omega)) p.1 (by omega)
    · simp only [members]
      refine (safe_key t).bind fun k hk => ?_
      have hskip := length_skip_le k.2
      refine (hvalue (skip k.2) (by omega)).bind fun p hp => ?_
      exact safe_follow (fun w hw => (hmembers w (by omega)).mono (by omega)) _ (by omega)

/-- An outcome with any fuel is the outcome with enough fuel. -/
theorem value_eq_of_ne {fuel fuel' : ℕ} {t : Text} (h : value R fuel t ≠ .error .exhausted)
    (hfuel : 2 * t.length + 1 ≤ fuel') : value R fuel' t = value R fuel t := by
  have hrun := fun n => (below_succ (R := R) n).1 t
  rcases le_total fuel fuel' with hle | hle
  · exact stable_of_le hrun hle h
  · exact (stable_of_le hrun hle ((safe_fuel fuel').1 t hfuel).ne_exhausted).symm

/-- So `loads` may be run with the fuel of any run that is not exhausted. -/
theorem loads_eq_of_ne {fuel : ℕ} {t : Text} (h : value R fuel (skip t) ≠ .error .exhausted) :
    loads R t = value R fuel (skip t) >>= finish := by
  have hskip := length_skip_le t
  rw [loads, value_eq_of_ne h (by omega)]

theorem value_loads_ne_exhausted (t : Text) :
    value R (2 * t.length + 2) (skip t) ≠ .error .exhausted := by
  have hskip := length_skip_le t
  exact ((safe_fuel (2 * t.length + 2)).1 (skip t) (by omega)).ne_exhausted

/-- The decoder never reports exhaustion. -/
theorem loads_ne_exhausted (t : Text) : loads R t ≠ .error .exhausted := by
  intro h
  have hne := value_loads_ne_exhausted (R := R) t
  rw [loads] at h
  cases hvalue : value R (2 * t.length + 2) (skip t) with
  | error e =>
    rw [hvalue] at h hne
    cases h
    exact hne rfl
  | ok p =>
    rw [hvalue] at h
    have hfinish : finish p = .error .exhausted := h
    simp only [finish] at hfinish
    split_ifs at hfinish
    cases hfinish

theorem finish_eq_ok {p : Doc × Text} {x : Doc} : finish p = .ok x ↔ p.1 = x ∧ skip p.2 = [] := by
  unfold finish
  split_ifs with h
  · rw [List.isEmpty_iff] at h
    simp [h]
  · rw [List.isEmpty_iff] at h
    simp [h]

/-- A text is decoded when some run reads a document off it and leaves blanks. -/
theorem loads_eq_ok_iff {t : Text} {x : Doc} : loads R t = .ok x ↔
    ∃ fuel r, value R fuel (skip t) = .ok (x, r) ∧ skip r = [] := by
  constructor
  · intro h
    rw [loads] at h
    cases hvalue : value R (2 * t.length + 2) (skip t) with
    | error e =>
      rw [hvalue] at h
      cases h
    | ok p =>
      rw [hvalue] at h
      obtain ⟨rfl, hblank⟩ := finish_eq_ok.mp h
      exact ⟨_, p.2, hvalue, hblank⟩
  · rintro ⟨fuel, r, hvalue, hblank⟩
    rw [loads_eq_of_ne (by rw [hvalue]; simp), hvalue]
    exact finish_eq_ok.mpr ⟨rfl, hblank⟩

end Doc
end Lib
