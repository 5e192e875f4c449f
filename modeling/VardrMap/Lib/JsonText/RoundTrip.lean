import VardrMap.Lib.JsonText.Local
import VardrMap.Lib.JsonText.Writing

/-!
# Reading what was written

A well-formed document without floats is read back from its text by every decoder that keeps
objects with distinct keys. The induction is on the document; a part is read at the start of
the text that follows it, which goes on with a comma or a bracket.
-/
namespace Lib

namespace Doc

variable {R : Reader}

/-- Some run reads the document off the text. -/
def Reads (R : Reader) (t : Text) (x : Doc) (r : Text) : Prop :=
  ∃ fuel, value R fuel t = .ok (x, r)

def ReadsItems (R : Reader) (t : Text) (xs : List Doc) (r : Text) : Prop :=
  ∃ fuel, elements R fuel t = .ok (xs, r)

def ReadsFields (R : Reader) (t : Text) (fs : List (Points × Doc)) (r : Text) : Prop :=
  ∃ fuel, members R fuel t = .ok (fs, r)

/-- The text goes on with something that does not continue a number. -/
theorem Reads.append {t r s : Text} {x : Doc} (h : Reads R t x r) (hs : Stops s) :
    Reads R (t ++ s) x (r ++ s) := by
  obtain ⟨fuel, hvalue⟩ := h
  have hlocal := (local_fuel (R := R) hs fuel).1 t
  rw [hvalue] at hlocal
  generalize hb : value R fuel (t ++ s) = b at hlocal
  cases hlocal
  exact ⟨fuel, hb⟩

theorem follow_close {α : Type} {close : Char} (hcomma : close ≠ ',') (hblank : blank close = false)
    (more : Text → Except Fault (List α × Text)) (x : α) (r : Text) :
    follow close more x (close :: r) = .ok ([x], r) := by
  simp [follow, skip, hblank, hcomma]

theorem follow_comma {α : Type} (close : Char) {more : Text → Except Fault (List α × Text)} {x : α}
    {xs : List α} {u r : Text} (h : more (skip u) = .ok (xs, r)) :
    follow close more x (',' :: u) = .ok (x :: xs, r) := by
  have hskip : skip (',' :: u) = ',' :: u := rfl
  simp only [follow, hskip, if_true, h]
  rfl

theorem value_of_le {fuel fuel' : ℕ} (hle : fuel ≤ fuel') {t : Text} {p : Doc × Text}
    (h : value R fuel t = .ok p) : value R fuel' t = .ok p := by
  rw [stable_of_le (fun n => (below_succ (R := R) n).1 t) hle (by rw [h]; simp), h]

theorem Reads.last {t r : Text} {x : Doc} (h : Reads R t x (']' :: r)) :
    ReadsItems R t [x] r := by
  obtain ⟨fuel, hvalue⟩ := h
  refine ⟨fuel + 1, ?_⟩
  have hclose := follow_close (show ']' ≠ ',' by decide) rfl (elements R fuel) x r
  rw [elements, hvalue]
  exact hclose

theorem Reads.more {t u r : Text} {x : Doc} {xs : List Doc} (h : Reads R t x (',' :: u))
    (hxs : ReadsItems R (skip u) xs r) : ReadsItems R t (x :: xs) r := by
  obtain ⟨n, hvalue⟩ := h
  obtain ⟨m, helements⟩ := hxs
  have hitems : elements R (max n m) (skip u) = .ok (xs, r) := by
    rw [stable_of_le (fun n => (below_succ (R := R) n).2.1 (skip u)) (le_max_right n m)
      (by rw [helements]; simp), helements]
  refine ⟨max n m + 1, ?_⟩
  rw [elements, value_of_le (le_max_left n m) hvalue]
  exact follow_comma ']' hitems

theorem key_quote {k : Points} (hk : k.Joined) (t : Text) :
    key (k.quote ++ ':' :: t) = .ok (k, t) := by
  have hquote : k.quote ++ ':' :: t =
      '"' :: ((k.flatMap Points.spread).flatMap Points.escape ++ '"' :: ':' :: t) := by
    simp [Points.quote]
  rw [hquote, key, if_pos rfl, Points.string_quote hk]
  rfl

theorem Reads.lastField {k : Points} (hk : k.Joined) {t r : Text} {x : Doc}
    (h : Reads R (skip t) x ('}' :: r)) :
    ReadsFields R (k.quote ++ ':' :: t) [(k, x)] r := by
  obtain ⟨fuel, hvalue⟩ := h
  refine ⟨fuel + 1, ?_⟩
  rw [members, key_quote hk]
  simp only [hvalue, bind, Except.bind]
  exact follow_close (show '}' ≠ ',' by decide) rfl _ (k, x) r

theorem Reads.moreFields {k : Points} (hk : k.Joined) {t u r : Text} {x : Doc}
    {fs : List (Points × Doc)} (h : Reads R (skip t) x (',' :: u))
    (hfs : ReadsFields R (skip u) fs r) :
    ReadsFields R (k.quote ++ ':' :: t) ((k, x) :: fs) r := by
  obtain ⟨n, hvalue⟩ := h
  obtain ⟨m, hmembers⟩ := hfs
  have hfields : members R (max n m) (skip u) = .ok (fs, r) := by
    rw [stable_of_le (fun n => (below_succ (R := R) n).2.2 (skip u)) (le_max_right n m)
      (by rw [hmembers]; simp), hmembers]
  refine ⟨max n m + 1, ?_⟩
  rw [members, key_quote hk]
  simp only [value_of_le (le_max_left n m) hvalue, bind, Except.bind]
  exact follow_comma '}' hfields

/-! ## Numbers -/

theorem exists_toDigits {n : ℕ} (h : n ≠ 0) :
    ∃ c w, Nat.toDigits 10 n = c :: w ∧ c ≠ '0' := by
  induction n using Nat.strongRecOn with
  | ind n ih =>
    rw [Nat.toDigits_eq_if (by decide)]
    split_ifs with hlt
    · exact ⟨_, _, rfl, fun hc => h (Nat.digitChar_eq_zero.mp hc)⟩
    · obtain ⟨c, w, hw, hc⟩ := ih (n / 10) (by omega) (by omega)
      exact ⟨c, w ++ [Nat.digitChar (n % 10)], by rw [hw, List.cons_append], hc⟩

/-- The digits of a number are an integer part. -/
theorem whole?_toDigits (n : ℕ) :
    whole? (Nat.toDigits 10 n) = some (Nat.toDigits 10 n, []) := by
  have hdigits : ∀ c ∈ Nat.toDigits 10 n, c.isDigit = true := fun c hc =>
    Nat.isDigit_of_mem_toDigits (by decide) (by decide) hc
  by_cases hn : n = 0
  · subst hn
    rfl
  · obtain ⟨c, w, hw, hc⟩ := exists_toDigits hn
    rw [hw] at hdigits ⊢
    rw [List.forall_mem_cons] at hdigits
    rw [whole?, if_neg hc, if_pos hdigits.1, List.takeWhile_eq_self_iff.mpr hdigits.2,
      List.dropWhile_eq_nil_iff.mpr hdigits.2]

theorem unsigned_toDigits {n : ℕ} (h : (Nat.toDigits 10 n).length ≤ maxDigits) (negative : Bool) :
    unsigned R negative (Nat.toDigits 10 n) =
      .ok (int (if negative then -(n : ℤ) else n), []) := by
  rw [unsigned, whole?_toDigits]
  simp only [fraction, exponent, List.isEmpty_nil, Bool.and_self, if_true, integer,
    if_neg (not_lt.mpr h), signed, Nat.ofDigitChars_ten_toDigits]

theorem ne_of_isDigit {c d : Char} (h : c.isDigit = true) (hd : d.isDigit = false) : c ≠ d := by
  rintro rfl
  rw [h] at hd
  cases hd

theorem word?_digit {c : Char} (h : c.isDigit = true) : word? R c = none := by
  have hne := fun d => ne_of_isDigit (d := d) h
  simp only [word?, if_neg (hne 'n' rfl), if_neg (hne 't' rfl), if_neg (hne 'f' rfl),
    if_neg (hne 'N' rfl), if_neg (hne 'I' rfl), if_neg (hne '-' rfl)]

theorem text_int (n : ℤ) : (toString n).toList = minus (n < 0) ++ Nat.toDigits 10 n.natAbs := by
  cases n with
  | ofNat n =>
    rw [show toString (Int.ofNat n) = n.repr from rfl, Nat.toList_repr]
    rfl
  | negSucc n =>
    have hminus : minus (decide (Int.negSucc n < 0)) = ['-'] := by
      rw [minus, if_pos (decide_eq_true (Int.negSucc_lt_zero n))]
    rw [show toString (Int.negSucc n) = "-" ++ (n + 1).repr from rfl, String.toList_append,
      Nat.toList_repr, hminus]
    rfl

theorem reads_int {n : ℤ} (h : (Nat.toDigits 10 n.natAbs).length ≤ maxDigits) :
    Reads R (toString n).toList (int n) [] := by
  obtain ⟨c, w, hw⟩ : ∃ c w, Nat.toDigits 10 n.natAbs = c :: w :=
    List.exists_cons_of_ne_nil Nat.toDigits_ne_nil
  have hdigit : c.isDigit = true := Nat.isDigit_of_mem_toDigits (by decide) (by decide)
    (show c ∈ Nat.toDigits 10 n.natAbs by rw [hw]; exact List.mem_cons_self)
  refine ⟨1, ?_⟩
  rw [text_int]
  by_cases hneg : n < 0
  · have hprefix : List.isPrefixOf? ['I', 'n', 'f', 'i', 'n', 'i', 't', 'y'] (c :: w) = none := by
      rw [List.isPrefixOf?, if_neg]
      simpa using (ne_of_isDigit hdigit (show Char.isDigit 'I' = false from rfl)).symm
    have hscalar : value R 1 ('-' :: c :: w) = unsigned R true (c :: w) := by
      simp [value, scanOnce, scalar, word?, hprefix, number]
    have habs : -(n.natAbs : ℤ) = n := by omega
    rw [minus, if_pos (decide_eq_true hneg), hw, List.singleton_append, hscalar, ← hw,
      unsigned_toDigits h, if_pos rfl, habs]
  · have hscalar : value R 1 (c :: w) = unsigned R false (c :: w) := by
      have hne := fun d => ne_of_isDigit (d := d) hdigit
      simp only [value, scanOnce, scalar, word?_digit hdigit, number, if_neg (hne '"' rfl),
        if_neg (hne '[' rfl), if_neg (hne '{' rfl), if_neg (hne '-' rfl)]
    have habs : (n.natAbs : ℤ) = n := by omega
    rw [minus, if_neg (by simpa using hneg), hw, List.nil_append, hscalar, ← hw,
      unsigned_toDigits h, if_neg (by simp), habs]

theorem reads_str {s : Points} (h : s.Joined) : Reads R s.quote (str s) [] := by
  refine ⟨1, ?_⟩
  have hquote : s.quote =
      '"' :: ((s.flatMap Points.spread).flatMap Points.escape ++ '"' :: []) := by
    simp [Points.quote]
  rw [hquote, value, scanOnce, if_pos rfl, Points.string_quote h]
  rfl

/-! ## Documents -/

/-- A text that starts neither with a blank nor with the end of an array. -/
def Starts (t : Text) : Prop := ∃ c u, t = c :: u ∧ blank c = false ∧ c ≠ ']'

theorem skip_of_starts {t : Text} (h : Starts t) (s : Text) : skip (t ++ s) = t ++ s := by
  obtain ⟨c, u, rfl, hblank, -⟩ := h
  simp [skip, hblank]

theorem starts_plain {d : Doc} (h : WellFormed (fun _ => False) d) : Starts d.plain := by
  cases h with
  | null => exact ⟨_, _, rfl, rfl, by decide⟩
  | bool b => cases b <;> exact ⟨_, _, rfl, rfl, by decide⟩
  | @int n h =>
    have hdigits : ∀ c ∈ Nat.toDigits 10 n.natAbs, c.isDigit = true := fun c hc =>
      Nat.isDigit_of_mem_toDigits (by decide) (by decide) hc
    rw [plain, text_int]
    by_cases hneg : n < 0
    · rw [minus, if_pos (decide_eq_true hneg)]
      exact ⟨_, _, rfl, rfl, by decide⟩
    · obtain ⟨c, w, hw⟩ := List.exists_cons_of_ne_nil (Nat.toDigits_ne_nil (n := n.natAbs) (b := 10))
      rw [hw] at hdigits
      have hdigit := hdigits c List.mem_cons_self
      have hne := fun d => ne_of_isDigit (d := d) hdigit
      rw [minus, if_neg (by simpa using hneg), hw]
      refine ⟨c, w, rfl, ?_, hne ']' rfl⟩
      simp [blank, hne ' ' rfl, hne '\t' rfl, hne '\n' rfl, hne '\r' rfl]
  | float h => exact h.elim
  | str => exact ⟨_, _, rfl, rfl, by decide⟩
  | arr => exact ⟨_, _, rfl, rfl, by decide⟩
  | obj => exact ⟨_, _, rfl, rfl, by decide⟩

theorem starts_plainItems {x : Doc} (xs : List Doc) (h : Starts x.plain) :
    Starts (plainItems (x :: xs)) := by
  obtain ⟨c, u, hu, hc⟩ := h
  cases xs with
  | nil => exact ⟨c, u, hu, hc⟩
  | cons y xs => exact ⟨c, _, by rw [plainItems, hu]; rfl, hc⟩

theorem plainFields_cons (p : Points × Doc) (fs : List (Points × Doc)) :
    ∃ t, plainFields (p :: fs) = '"' :: t := by
  cases fs with
  | nil => exact ⟨_, rfl⟩
  | cons q fs => exact ⟨_, rfl⟩

/-- The items of an array are read up to its bracket. -/
theorem reads_plainItems {x : Doc} {xs : List Doc}
    (h : ∀ y ∈ x :: xs, Reads R y.plain y [] ∧ Starts y.plain) (s : Text) :
    ReadsItems R (plainItems (x :: xs) ++ ']' :: s) (x :: xs) s := by
  induction xs generalizing x with
  | nil =>
    rw [plainItems]
    exact ((h x List.mem_cons_self).1.append (Stops.of_head rfl s)).last
  | cons y xs ih =>
    have hrest := ih fun z hz => h z (List.mem_cons_of_mem _ hz)
    have hstarts := starts_plainItems xs (h y (by simp)).2
    rw [plainItems, List.append_assoc, List.cons_append]
    refine ((h x List.mem_cons_self).1.append (Stops.of_head rfl _)).more ?_
    rw [skip_of_starts hstarts]
    exact hrest

/-- The members of an object are read up to its brace. -/
theorem reads_plainFields {p : Points × Doc} {fs : List (Points × Doc)}
    (h : ∀ q ∈ p :: fs, q.1.Joined ∧ Reads R q.2.plain q.2 [] ∧ Starts q.2.plain) (s : Text) :
    ReadsFields R (plainFields (p :: fs) ++ '}' :: s) (p :: fs) s := by
  induction fs generalizing p with
  | nil =>
    obtain ⟨hk, hreads, hstarts⟩ := h p List.mem_cons_self
    rw [plainFields, List.append_assoc, List.cons_append]
    refine Reads.lastField hk ?_
    rw [skip_of_starts hstarts]
    exact hreads.append (Stops.of_head rfl s)
  | cons q fs ih =>
    obtain ⟨hk, hreads, hstarts⟩ := h p List.mem_cons_self
    have hrest := ih fun z hz => h z (List.mem_cons_of_mem _ hz)
    have hskip : skip (plainFields (q :: fs) ++ '}' :: s) = plainFields (q :: fs) ++ '}' :: s := by
      obtain ⟨t, ht⟩ := plainFields_cons q fs
      rw [ht]
      rfl
    have htext : plainFields (p :: q :: fs) ++ '}' :: s =
        p.1.quote ++ ':' :: (p.2.plain ++ ',' :: (plainFields (q :: fs) ++ '}' :: s)) := by
      simp [plainFields]
    rw [htext]
    refine Reads.moreFields (u := plainFields (q :: fs) ++ '}' :: s) hk ?_ ?_
    · rw [skip_of_starts hstarts]
      exact hreads.append (Stops.of_head rfl _)
    · rw [hskip]
      exact hrest

/-- Every well-formed document without floats is read off its text. -/
theorem reads_plain (hR : ∀ fs, (fs.map Prod.fst).Nodup → R.pairs fs = some (obj fs)) {d : Doc}
    (h : WellFormed (fun _ => False) d) : Reads R d.plain d [] := by
  induction h with
  | null => exact ⟨1, rfl⟩
  | bool b => cases b <;> exact ⟨1, rfl⟩
  | int h => exact reads_int h
  | float h => exact h.elim
  | str h => exact reads_str h
  | @arr xs h ih =>
    cases xs with
    | nil => exact ⟨1, rfl⟩
    | cons x xs =>
      obtain ⟨c, u, hu, hblank, hc⟩ := starts_plainItems xs (starts_plain (h x List.mem_cons_self))
      obtain ⟨fuel, hitems⟩ := reads_plainItems (R := R)
        (fun y hy => ⟨ih y hy, starts_plain (h y hy)⟩) []
      refine ⟨fuel + 1, ?_⟩
      rw [hu, List.cons_append] at hitems
      rw [plain, hu]
      simp only [List.cons_append, value, scanOnce, if_neg (show '[' ≠ '"' by decide), if_true,
        array, skip, List.dropWhile_cons, hblank, Bool.false_eq_true, if_false, if_neg hc, hitems]
      rfl
  | @obj fs hkeys hjoined h ih =>
    cases fs with
    | nil =>
      refine ⟨1, ?_⟩
      have hempty : hooked (R.pairs []) [] = .ok (obj [], []) := by
        rw [hR [] hkeys]
        rfl
      exact hempty
    | cons p fs =>
      obtain ⟨u, hu⟩ := plainFields_cons p fs
      obtain ⟨fuel, hfields⟩ := reads_plainFields (R := R)
        (fun q hq => ⟨hjoined q hq, ih q hq, starts_plain (h q hq)⟩) []
      refine ⟨fuel + 1, ?_⟩
      rw [hu, List.cons_append] at hfields
      have hskip : skip ('"' :: (u ++ ['}'])) = '"' :: (u ++ ['}']) := rfl
      rw [plain, hu]
      simp only [List.cons_append, value, scanOnce, if_neg (show '{' ≠ '"' by decide),
        if_neg (show '{' ≠ '[' by decide), if_true, object, hskip,
        if_neg (show '"' ≠ '}' by decide), hfields, bind, Except.bind, hR _ hkeys]
      rfl

/-- The text of a well-formed document without floats is decoded to the document. -/
theorem loads_plain (hR : ∀ fs, (fs.map Prod.fst).Nodup → R.pairs fs = some (obj fs)) {d : Doc}
    (h : WellFormed (fun _ => False) d) : loads R d.plain = .ok d := by
  obtain ⟨fuel, hvalue⟩ := reads_plain hR h
  have hskip := skip_of_starts (starts_plain h) []
  rw [List.append_nil] at hskip
  exact loads_eq_ok_iff.mpr ⟨fuel, [], by rw [hskip, hvalue], rfl⟩

end Doc
end Lib
