import Mathlib.Data.List.Chain
import VardrMap.Lib.Sha256

/-!
# Strings inside a document

A decoded string is a sequence of code points, and an escape may leave half of a surrogate
pair alone in it. The writer spells every point in ASCII: a point of the upper planes as two
code units, a unit outside the printable range as an escape. The reader turns the text into
units and joins the pairs. No decoded string holds an unjoined pair, and for such strings
reading undoes writing (`string_quote`).
-/
namespace Lib

/-- A string as its code points. -/
abbrev Points := List ℕ

/-- Why a text is not decoded: it is no document, a number in it is too long, a hook of the
caller refuses a part of it. `exhausted` belongs to the recursion and is never reported. -/
inductive Fault where
  | malformed
  | tooLong
  | refused
  | exhausted
  deriving DecidableEq

namespace Points

/-! ## Code units -/

/-- The first half of a surrogate pair. -/
def isHigh (n : ℕ) : Bool := 55296 ≤ n && n < 56320

/-- The second half. -/
def isLow (n : ℕ) : Bool := 56320 ≤ n && n < 57344

/-- The point that a pair stands for. -/
def joined (high low : ℕ) : ℕ := 65536 + (high - 55296) * 1024 + (low - 56320)

/-- The code units of a point. -/
def spread (n : ℕ) : List ℕ :=
  if n < 65536 then [n] else [55296 + (n - 65536) / 1024, 56320 + (n - 65536) % 1024]

/-- Every pair of surrogates that follow each other becomes one point. -/
def pairUp : List ℕ → Points
  | [] => []
  | [u] => [u]
  | u :: v :: us =>
    if isHigh u && isLow v then joined u v :: pairUp us else u :: pairUp (v :: us)

/-- A string as the reader leaves it: code points, and no pair that is not joined. -/
structure Joined (s : Points) : Prop where
  lt : ∀ n ∈ s, n < 1114112
  chain : s.IsChain fun u v => ¬ (isHigh u = true ∧ isLow v = true)

theorem Joined.tail {n : ℕ} {s : Points} (h : Joined (n :: s)) : Joined s :=
  ⟨fun m hm => h.lt m (List.mem_cons_of_mem _ hm), h.chain.tail⟩

/-- Below the surrogates there is nothing to join. -/
theorem joined_of_lt_high {s : Points} (h : ∀ n ∈ s, n < 55296) : Joined s := by
  refine ⟨fun n hn => (h n hn).trans (by omega), ?_⟩
  induction s with
  | nil => exact .nil
  | cons n s ih =>
    have hn := h n (List.mem_cons_self ..)
    refine List.isChain_cons.mpr ⟨fun v _ hv => ?_, ih fun m hm => h m (List.mem_cons_of_mem _ hm)⟩
    simp only [isHigh, Bool.and_eq_true, decide_eq_true_eq] at hv
    omega

theorem isLow_eq_false_of_isHigh {n : ℕ} (h : isHigh n = true) : isLow n = false := by
  simp only [isHigh, isLow, Bool.and_eq_true, decide_eq_true_eq, Bool.and_eq_false_iff,
    decide_eq_false_iff_not] at h ⊢
  omega

theorem joined_eq (u v : ℕ) : joined u v = 65536 + (u - 55296) * 1024 + (v - 56320) := rfl

theorem joined_lt {u v : ℕ} (hu : isHigh u = true) (hv : isLow v = true) :
    65536 ≤ joined u v ∧ joined u v < 1114112 := by
  simp only [isHigh, isLow, Bool.and_eq_true, decide_eq_true_eq] at hu hv
  rw [joined_eq]
  omega

/-- The first point is the first unit or the first pair. -/
theorem head?_pairUp (us : List ℕ) :
    (pairUp us).head? = us.head? ∨ ∃ n, (pairUp us).head? = some n ∧ 65536 ≤ n := by
  induction us using pairUp.induct with
  | case1 => exact .inl rfl
  | case2 u => exact .inl rfl
  | case3 u v us h ih =>
    have hle : 65536 ≤ joined u v := by
      rw [Bool.and_eq_true] at h
      exact (joined_lt h.1 h.2).1
    refine .inr ⟨joined u v, ?_, hle⟩
    rw [pairUp, if_pos h, List.head?_cons]
  | case4 u v us h ih =>
    left
    rw [pairUp, if_neg h, List.head?_cons, List.head?_cons]

/-- What the reader joins stays joined. -/
theorem joined_pairUp {us : List ℕ} (h : ∀ u ∈ us, u < 1114112) : Joined (pairUp us) := by
  induction us using pairUp.induct with
  | case1 => exact ⟨by simp [pairUp], .nil⟩
  | case2 u => exact ⟨by simpa [pairUp] using h, .singleton _⟩
  | case3 u v us huv ih =>
    have hrest := ih fun w hw => h w (List.mem_cons_of_mem _ (List.mem_cons_of_mem _ hw))
    have hjoined : 65536 ≤ joined u v ∧ joined u v < 1114112 := by
      rw [Bool.and_eq_true] at huv
      exact joined_lt huv.1 huv.2
    rw [pairUp, if_pos huv]
    refine ⟨List.forall_mem_cons.mpr ⟨hjoined.2, hrest.lt⟩,
      List.isChain_cons.mpr ⟨fun y _ hy => ?_, hrest.chain⟩⟩
    have hhigh := hy.1
    simp only [isHigh, Bool.and_eq_true, decide_eq_true_eq] at hhigh
    omega
  | case4 u v us huv ih =>
    have hrest := ih fun w hw => h w (List.mem_cons_of_mem _ hw)
    rw [pairUp, if_neg huv]
    refine ⟨List.forall_mem_cons.mpr ⟨h u List.mem_cons_self, hrest.lt⟩,
      List.isChain_cons.mpr ⟨fun y hy hlow => ?_, hrest.chain⟩⟩
    rcases head?_pairUp (v :: us) with hhead | ⟨n, hhead, hn⟩
    · rw [hhead, List.head?_cons, Option.mem_some_iff] at hy
      subst hy
      exact huv (by rw [hlow.1, hlow.2]; rfl)
    · rw [hhead, Option.mem_some_iff] at hy
      subst hy
      have hlow' := hlow.2
      simp only [isLow, Bool.and_eq_true, decide_eq_true_eq] at hlow'
      omega

/-- The units of a point of the upper planes are the pair it came from. -/
theorem spread_of_le {n : ℕ} (h : 65536 ≤ n) (hlt : n < 1114112) :
    ∃ u v, spread n = [u, v] ∧ isHigh u = true ∧ isLow v = true ∧ joined u v = n := by
  obtain ⟨q, hq⟩ : ∃ q, q = (n - 65536) / 1024 := ⟨_, rfl⟩
  obtain ⟨r, hr⟩ : ∃ r, r = (n - 65536) % 1024 := ⟨_, rfl⟩
  have hn : n = 65536 + q * 1024 + r := by omega
  refine ⟨55296 + q, 56320 + r, ?_, ?_, ?_, ?_⟩
  · rw [spread, if_neg (not_lt.mpr h), hq, hr]
  · simp only [isHigh, Bool.and_eq_true, decide_eq_true_eq]
    omega
  · simp only [isLow, Bool.and_eq_true, decide_eq_true_eq]
    omega
  · rw [joined_eq]
    omega

/-- The first unit is a low surrogate only when the first point is one. -/
theorem isLow_of_head?_spread {s : Points} (h : Joined s) {u : ℕ}
    (hu : (s.flatMap spread).head? = some u) (hlow : isLow u = true) : s.head? = some u := by
  cases s with
  | nil => cases hu
  | cons n s =>
    rw [List.flatMap_cons] at hu
    by_cases hn : n < 65536
    · rw [spread, if_pos hn] at hu
      exact hu
    · obtain ⟨high, low, hspread, hhigh, -⟩ :=
        spread_of_le (not_lt.mp hn) (h.lt n List.mem_cons_self)
      rw [hspread, List.cons_append, List.head?_cons, Option.some.injEq] at hu
      subst hu
      rw [isLow_eq_false_of_isHigh hhigh] at hlow
      cases hlow

theorem pairUp_cons {u : ℕ} {us : List ℕ}
    (h : ∀ v ∈ us.head?, ¬ (isHigh u = true ∧ isLow v = true)) :
    pairUp (u :: us) = u :: pairUp us := by
  cases us with
  | nil => rfl
  | cons v us =>
    rw [pairUp, if_neg]
    intro huv
    rw [Bool.and_eq_true] at huv
    exact h v rfl huv

/-- Joining undoes spreading. -/
theorem pairUp_spread {s : Points} (h : Joined s) : pairUp (s.flatMap spread) = s := by
  induction s with
  | nil => rfl
  | cons n s ih =>
    rw [List.flatMap_cons]
    by_cases hn : n < 65536
    · rw [spread, if_pos hn, List.singleton_append, pairUp_cons, ih h.tail]
      intro v hv hsurrogates
      have hhead := isLow_of_head?_spread h.tail hv hsurrogates.2
      exact (List.isChain_cons.mp h.chain).1 v hhead hsurrogates
    · obtain ⟨u, v, hspread, hu, hv, hjoined⟩ :=
        spread_of_le (not_lt.mp hn) (h.lt n List.mem_cons_self)
      rw [hspread, List.cons_append, List.singleton_append, pairUp,
        if_pos (by rw [hu, hv]; rfl), hjoined, ih h.tail]

/-! ## The text between the quotes -/

/-- The value of a hexadecimal digit. -/
def hexValue? (c : Char) : Option ℕ :=
  if 48 ≤ c.toNat && c.toNat ≤ 57 then some (c.toNat - 48)
  else if 97 ≤ c.toNat && c.toNat ≤ 102 then some (c.toNat - 87)
  else if 65 ≤ c.toNat && c.toNat ≤ 70 then some (c.toNat - 55)
  else none

/-- The unit that four hexadecimal digits name. -/
def hexUnit? (a b c d : Char) : Option ℕ := do
  return (← hexValue? a) * 4096 + (← hexValue? b) * 256 + (← hexValue? c) * 16 + (← hexValue? d)

/-- The seven units that are written with a letter. -/
def letters : List (ℕ × Char) :=
  [(34, '"'), (92, '\\'), (10, 'n'), (13, 'r'), (9, 't'), (12, 'f'), (8, 'b')]

/-- The unit that a letter after a backslash names. -/
def escaped? (c : Char) : Option ℕ :=
  if c = '/' then some 47 else (letters.find? fun p => p.2 == c).map Prod.fst

/-- A unit before the ones that are read from the rest. -/
def push (n : ℕ) (r : Except Fault (List ℕ × Text)) : Except Fault (List ℕ × Text) :=
  r.map fun p => (n :: p.1, p.2)

/-- The units up to the closing quote, and the text after it. -/
def units : Text → Except Fault (List ℕ × Text)
  | [] => .error .malformed
  | c :: t =>
    if c = '"' then .ok ([], t)
    else if c = '\\' then
      match t with
      | [] => .error .malformed
      | e :: t =>
        if e = 'u' then
          match t with
          | h₁ :: h₂ :: h₃ :: h₄ :: t =>
            match hexUnit? h₁ h₂ h₃ h₄ with
            | some n => push n (units t)
            | none => .error .malformed
          | _ => .error .malformed
        else
          match escaped? e with
          | some n => push n (units t)
          | none => .error .malformed
    else if c.toNat < 32 then .error .malformed
    else push c.toNat (units t)

/-- A string after its opening quote: `scanstring` in strict mode. -/
def string (t : Text) : Except Fault (Points × Text) :=
  (units t).map fun p => (pairUp p.1, p.2)

/-- One unit in ASCII. -/
def escape (n : ℕ) : Text :=
  match letters.lookup n with
  | some e => ['\\', e]
  | none => if 32 ≤ n && n < 127 then [Char.ofNat n] else '\\' :: 'u' :: Json.hex 4 n

/-- A string between its quotes. -/
def quote (s : Points) : Text := '"' :: (s.flatMap spread).flatMap escape ++ ['"']

theorem units_quote (t : Text) : units ('"' :: t) = .ok ([], t) := by
  rw [units.eq_def]
  simp

theorem units_escaped {e : Char} {n : ℕ} (he : e ≠ 'u') (h : escaped? e = some n) (t : Text) :
    units ('\\' :: e :: t) = push n (units t) := by
  rw [units.eq_def]
  simp [he, h]

theorem units_hex {a b c d : Char} {n : ℕ} (h : hexUnit? a b c d = some n) (t : Text) :
    units ('\\' :: 'u' :: a :: b :: c :: d :: t) = push n (units t) := by
  rw [units.eq_def]
  simp [h]

theorem units_plain {c : Char} (hquote : c ≠ '"') (hslash : c ≠ '\\') (h : 32 ≤ c.toNat)
    (t : Text) : units (c :: t) = push c.toNat (units t) := by
  rw [units.eq_def]
  simp [hquote, hslash, not_lt.mpr h]

theorem hexValue?_hexDigit : ∀ n < 16, hexValue? (Json.hexDigit n) = some n := by
  decide

theorem hexUnit?_hex {n : ℕ} (h : n < 65536) : ∃ a b c d, Json.hex 4 n = [a, b, c, d] ∧
    hexUnit? a b c d = some n := by
  refine ⟨_, _, _, _, rfl, ?_⟩
  have hlt : ∀ m, m % 16 < 16 := fun m => Nat.mod_lt _ (by decide)
  simp only [hexUnit?, hexValue?_hexDigit _ (hlt _), Option.bind_eq_bind, Option.bind_some,
    Option.pure_def, Option.some.injEq]
  omega

theorem toNat_ofNat : ∀ n < 128, (Char.ofNat n).toNat = n := by
  decide

/-- Every letter is read as its unit. -/
theorem escaped?_letters : ∀ p ∈ letters, p.2 ≠ 'u' ∧ escaped? p.2 = some p.1 := by
  decide

/-- The reader takes one written unit off the text. -/
theorem units_escape {n : ℕ} (h : n < 65536) (t : Text) :
    units (escape n ++ t) = push n (units t) := by
  unfold escape
  cases hletter : letters.lookup n with
  | some e =>
    obtain ⟨before, after, hsplit, -⟩ := List.lookup_eq_some_iff.mp hletter
    have hmem : (n, e) ∈ letters := by
      rw [hsplit]
      exact List.mem_append_cons_self
    obtain ⟨he, hread⟩ := escaped?_letters (n, e) hmem
    exact units_escaped he hread t
  | none =>
    by_cases hrange : (32 ≤ n && n < 127) = true
    · have hne : ∀ e, (n, e) ∉ letters := fun e he => by
        have hsome := List.lookup_eq_none_iff.mp hletter (n, e) he
        simp at hsome
      simp only [Bool.and_eq_true, decide_eq_true_eq] at hrange
      have htoNat : (Char.ofNat n).toNat = n := toNat_ofNat n (by omega)
      have hquote : Char.ofNat n ≠ '"' := fun hc => by
        have h34 : n = 34 := by rw [← htoNat, hc]; rfl
        exact hne '"' (by rw [h34]; decide)
      have hslash : Char.ofNat n ≠ '\\' := fun hc => by
        have h92 : n = 92 := by rw [← htoNat, hc]; rfl
        exact hne '\\' (by rw [h92]; decide)
      simp only [hrange.1, hrange.2, decide_true, Bool.and_self, if_true, List.singleton_append]
      rw [units_plain hquote hslash (by omega), htoNat]
    · obtain ⟨a, b, c, d, hhex, hunit⟩ := hexUnit?_hex h
      simp only [if_neg hrange, hhex, List.cons_append, List.nil_append]
      exact units_hex hunit t

theorem units_flatMap_escape {us : List ℕ} (h : ∀ u ∈ us, u < 65536) (t : Text) :
    units (us.flatMap escape ++ '"' :: t) = .ok (us, t) := by
  induction us with
  | nil => exact units_quote t
  | cons u us ih =>
    rw [List.flatMap_cons, List.append_assoc, units_escape (h u List.mem_cons_self),
      ih fun v hv => h v (List.mem_cons_of_mem _ hv)]
    rfl

theorem spread_lt {n u : ℕ} (h : n < 1114112) (hu : u ∈ spread n) : u < 65536 := by
  unfold spread at hu
  split at hu
  case isTrue hn =>
    rw [List.mem_singleton] at hu
    omega
  case isFalse hn =>
    simp only [List.mem_cons, List.not_mem_nil, or_false] at hu
    omega

/-- Reading a written string gives the string back. -/
theorem string_quote {s : Points} (h : Joined s) (t : Text) :
    string ((s.flatMap spread).flatMap escape ++ '"' :: t) = .ok (s, t) := by
  have hlt : ∀ u ∈ s.flatMap spread, u < 65536 := by
    intro u hu
    obtain ⟨n, hn, hu⟩ := List.mem_flatMap.mp hu
    exact spread_lt (h.lt n hn) hu
  rw [string, units_flatMap_escape hlt, Except.map, pairUp_spread h]

/-- What a scanner takes off a text it takes off every text with that beginning. -/
def Takes {α : Type} (scan : Text → Except Fault (α × Text)) (w : Text) (x : α) : Prop :=
  w ≠ [] ∧ ∀ s, scan (w ++ s) = .ok (x, s)

theorem hexUnit?_lt {a b c d : Char} {n : ℕ} (h : hexUnit? a b c d = some n) : n < 65536 := by
  have hvalue : ∀ {x : Char} {m : ℕ}, hexValue? x = some m → m < 16 := by
    intro x m hm
    unfold hexValue? at hm
    simp only [Bool.and_eq_true, decide_eq_true_eq] at hm
    split_ifs at hm <;> simp only [Option.some.injEq] at hm <;> omega
  simp only [hexUnit?, Option.bind_eq_bind, Option.bind_eq_some_iff, Option.pure_def,
    Option.some.injEq] at h
  obtain ⟨p, hp, q, hq, r, hr, s, hs, rfl⟩ := h
  have hp := hvalue hp
  have hq := hvalue hq
  have hr := hvalue hr
  have hs := hvalue hs
  omega

theorem escaped?_lt {e : Char} {n : ℕ} (h : escaped? e = some n) : n < 128 := by
  have hletters : ∀ p ∈ letters, p.1 < 128 := by decide
  unfold escaped? at h
  split at h
  · rw [Option.some.injEq] at h
    omega
  · obtain ⟨p, hp, rfl⟩ := Option.map_eq_some_iff.mp h
    exact hletters p (List.mem_of_find?_eq_some hp)

theorem toNat_lt (c : Char) : c.toNat < 1114112 := by
  rcases c.valid with h | h
  · exact lt_trans h (by decide)
  · exact h.2

/-- A scanner of strings fails as on no document, or takes a beginning of the text. -/
def Scanned (t : Text) : Prop :=
  units t = .error .malformed ∨
    ∃ w us r, t = w ++ r ∧ (∀ u ∈ us, u < 1114112) ∧ Takes units w us

theorem Scanned.push {w : Text} {n : ℕ} (h : ∀ t, units (w ++ t) = push n (units t))
    (hn : n < 1114112) {t : Text} (ht : Scanned t) : Scanned (w ++ t) := by
  rcases ht with ht | ⟨w', us, r, rfl, hlt, hne, htakes⟩
  · exact .inl (by rw [h, ht]; rfl)
  · refine .inr ⟨w ++ w', n :: us, r, (List.append_assoc ..).symm,
      List.forall_mem_cons.mpr ⟨hn, hlt⟩, by simp [hne], fun s => ?_⟩
    rw [List.append_assoc, h, htakes]
    rfl

/-- The text between the quotes ends at the first quote that no backslash takes. -/
theorem units_scanned (t : Text) : Scanned t := by
  induction t using units.induct with
  | case1 => exact .inl rfl
  | case2 t => exact .inr ⟨['"'], [], t, rfl, by simp, by simp, units_quote⟩
  | case3 => exact .inl rfl
  | case4 a b c d t n h _ ih =>
    exact ih.push (w := ['\\', 'u', a, b, c, d]) (units_hex h)
      (lt_trans (hexUnit?_lt h) (by decide))
  | case5 a b c d t h =>
    left
    rw [units.eq_def]
    simp [h]
  | case6 t h =>
    left
    rw [units.eq_def]
    simp
  | case7 e t he n h _ ih =>
    exact ih.push (w := ['\\', e]) (units_escaped he h) (lt_trans (escaped?_lt h) (by decide))
  | case8 e t he h =>
    left
    rw [units.eq_def]
    simp [he, h]
  | case9 c t hquote hslash h =>
    left
    rw [units.eq_def]
    simp [hquote, hslash, h]
  | case10 c t hquote hslash h ih =>
    exact ih.push (w := [c]) (units_plain hquote hslash (not_lt.mp h)) (toNat_lt c)

/-- Reading a string fails as on no document, or takes a beginning of the text and leaves
code points that are joined. -/
theorem string_cases (t : Text) : string t = .error .malformed ∨
    ∃ w s r, t = w ++ r ∧ Joined s ∧ Takes string w s := by
  rcases units_scanned t with h | ⟨w, us, r, rfl, hlt, hne, htakes⟩
  · exact .inl (by rw [string, h]; rfl)
  · refine .inr ⟨w, pairUp us, r, rfl, joined_pairUp hlt, hne, fun s => ?_⟩
    rw [string, htakes]
    rfl

end Points
end Lib
