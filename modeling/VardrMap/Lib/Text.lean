import Mathlib.Data.List.DropRight
import Mathlib.Data.List.Infix

/-!
# Text operations of a scripting language

Strings are lists of code points. The operations are the ones a string-splitting
program is written in: trimming, cutting at the first or last separator, splitting
at every separator, and folding case. The Unicode character tables are data of the
class `Unicode`, with the facts about them that hold in every version of the tables.
-/
namespace Lib

/-- A string of the modelled language: a sequence of code points. -/
abbrev Text := List Char

/-- A code point below 128. -/
def isAscii (c : Char) : Bool := c.toNat < 128

/-- White space among the ASCII code points: the blank and the separators. -/
def asciiSpace (c : Char) : Bool :=
  (9 ≤ c.toNat && c.toNat ≤ 13) || (28 ≤ c.toNat && c.toNat ≤ 32)

/-- An ASCII code point that is no letter. -/
def isMark (c : Char) : Bool := isAscii c && !c.isAlpha

/-- A mark that case folding never looks across when it folds a capital sigma: not the
apostrophe, the dot, the colon, the circumflex and the backtick. -/
def isBoundary (c : Char) : Bool := isMark c && !([39, 46, 58, 94, 96].contains c.toNat)

/-- The character tables that string methods consult. -/
class Unicode where
  isSpace : Char → Bool
  isDigit : Char → Bool
  /-- The value of a decimal digit; superscripts are digits without one. -/
  decimal : Char → Option ℕ
  printable : Char → Bool
  lower : Text → Text
  upper : Text → Text
  nfkc : Text → Text
  isSpace_ascii : ∀ c, isAscii c = true → isSpace c = asciiSpace c
  isDigit_ascii : ∀ c, isAscii c = true → isDigit c = c.isDigit
  decimal_ascii : ∀ c, isAscii c = true →
    decimal c = if c.isDigit then some (c.toNat - 48) else none
  isDigit_of_decimal : ∀ c n, decimal c = some n → isDigit c = true
  lower_ascii : ∀ l : Text, (∀ c ∈ l, isAscii c = true) → lower l = l.map Char.toLower
  upper_ascii : ∀ l : Text, (∀ c ∈ l, isAscii c = true) → upper l = l.map Char.toUpper
  lower_lower : ∀ l : Text, lower (lower l) = lower l
  lower_eq_nil : ∀ l : Text, lower l = [] → l = []
  /-- Case folding never looks across a boundary. -/
  lower_boundary : ∀ (a : Text) (c : Char) (b : Text), isBoundary c = true →
    lower (a ++ c :: b) = lower a ++ c :: lower b
  /-- Case folding neither makes nor removes a mark. -/
  lower_count_mark : ∀ (l : Text) (c : Char), isMark c = true → (lower l).count c = l.count c
  /-- A mark at the end changes nothing before it. -/
  lower_concat_mark : ∀ (l : Text) (c : Char), isMark c = true → lower (l ++ [c]) = lower l ++ [c]
  /-- Case folding does not move a mark to the end. -/
  lower_last_mark : ∀ (l : Text) (c : Char), isMark c = true → (lower l).getLast? = some c →
    l.getLast? = some c
  /-- Case folding neither makes nor moves white space at the front. -/
  isSpace_lower_head : ∀ (l : Text) (c : Char), (lower l).head? = some c → isSpace c = true →
    ∃ d, l.head? = some d ∧ isSpace d = true
  /-- Nor at the end. -/
  isSpace_lower_last : ∀ (l : Text) (c : Char), (lower l).getLast? = some c → isSpace c = true →
    ∃ d, l.getLast? = some d ∧ isSpace d = true

theorem isAscii_of_isDigit {c : Char} (h : c.isDigit = true) : isAscii c = true := by
  have h9 : '9'.val.toNat = 57 := rfl
  have hc : c.toNat = c.val.toNat := rfl
  simp only [Char.isDigit, Bool.and_eq_true, decide_eq_true_eq, UInt32.le_iff_toNat_le] at h
  simp only [isAscii, decide_eq_true_eq]
  omega

/-- Lower-casing keeps a code point or moves a capital letter by 32. -/
theorem toLower_cases (c : Char) :
    c.toLower = c ∨ 65 ≤ c.toNat ∧ c.toNat ≤ 90 ∧ c.toLower.toNat = c.toNat + 32 := by
  unfold Char.toLower
  split
  · rename_i hc
    have hlo : 65 ≤ c.val.toNat := UInt32.le_iff_toNat_le.mp hc.1
    have hhi : c.val.toNat ≤ 90 := UInt32.le_iff_toNat_le.mp hc.2
    have hadd : (c.val + ('a'.val - 'A'.val)).toNat = c.val.toNat + 32 := by
      rw [UInt32.toNat_add]
      exact Nat.mod_eq_of_lt (show c.val.toNat + 32 < 2 ^ 32 by omega)
    exact .inr ⟨hlo, hhi, hadd⟩
  · exact .inl rfl

/-- Lower-casing never yields white space. -/
theorem toLower_of_space {c : Char} (h : asciiSpace c.toLower = true) : c.toLower = c := by
  rcases toLower_cases c with hc | ⟨hlo, -, hadd⟩
  · exact hc
  · simp only [asciiSpace, hadd, Bool.or_eq_true, Bool.and_eq_true, decide_eq_true_eq] at h
    omega

theorem isAlpha_of_toNat {c : Char}
    (h : 65 ≤ c.toNat ∧ c.toNat ≤ 90 ∨ 97 ≤ c.toNat ∧ c.toNat ≤ 122) : c.isAlpha = true := by
  have hc : c.toNat = c.val.toNat := rfl
  have hA : 'A'.val.toNat = 65 := rfl
  have hZ : 'Z'.val.toNat = 90 := rfl
  have ha : 'a'.val.toNat = 97 := rfl
  have hz : 'z'.val.toNat = 122 := rfl
  delta Char.isAlpha Char.isUpper Char.isLower
  simp only [Bool.or_eq_true, Bool.and_eq_true, decide_eq_true_eq, ge_iff_le,
    UInt32.le_iff_toNat_le]
  omega

/-- Lower-casing keeps a mark, and yields it from nothing else. -/
theorem toLower_eq_mark {c d : Char} (h : isMark c = true) : d.toLower = c ↔ d = c := by
  simp only [isMark, Bool.and_eq_true, Bool.not_eq_true'] at h
  rcases toLower_cases d with hd | ⟨hlo, hhi, hadd⟩
  · rw [hd]
  · have hlower : d.toLower.isAlpha = true := isAlpha_of_toNat (by omega)
    have hupper : d.isAlpha = true := isAlpha_of_toNat (by omega)
    constructor
    · rintro rfl
      simp [hlower] at h
    · rintro rfl
      simp [hupper] at h

theorem toLower_toLower (c : Char) : c.toLower.toLower = c.toLower := by
  rcases toLower_cases c.toLower with h | ⟨-, hhi, -⟩
  · exact h
  · rcases toLower_cases c with hc | ⟨hlo, -, hadd⟩
    · rw [hc, hc]
    · omega

theorem isMark_of_isBoundary {c : Char} (h : isBoundary c = true) : isMark c = true := by
  simp only [isBoundary, Bool.and_eq_true] at h
  exact h.1

/-- The tables restricted to ASCII; other code points have no class and no case. -/
@[reducible] def Unicode.ascii : Unicode where
  isSpace c := isAscii c && asciiSpace c
  isDigit c := isAscii c && c.isDigit
  decimal c := if isAscii c && c.isDigit then some (c.toNat - 48) else none
  printable c := 32 ≤ c.toNat && c.toNat < 127
  lower l := l.map Char.toLower
  upper l := l.map Char.toUpper
  nfkc l := l
  isSpace_ascii c h := by simp [h]
  isDigit_ascii c h := by simp [h]
  decimal_ascii c h := by simp [h]
  isDigit_of_decimal c n h := by
    by_contra hc
    simp [hc] at h
  lower_ascii _ _ := rfl
  upper_ascii _ _ := rfl
  lower_lower l := by simp [toLower_toLower]
  lower_eq_nil l h := List.map_eq_nil_iff.mp h
  lower_boundary a c b h := by
    simp [(toLower_eq_mark (isMark_of_isBoundary h)).mpr rfl]
  lower_count_mark l c h := by
    rw [List.count, List.countP_map]
    exact List.countP_congr fun d _ => by simp [toLower_eq_mark h]
  lower_concat_mark l c h := by simp [(toLower_eq_mark h).mpr rfl]
  lower_last_mark l c h hc := by
    simp only [List.getLast?_map, Option.map_eq_some_iff] at hc
    obtain ⟨d, hd, hdc⟩ := hc
    rw [hd, (toLower_eq_mark h).mp hdc]
  isSpace_lower_head l c h hc := by
    simp only [List.head?_map, Option.map_eq_some_iff] at h
    obtain ⟨d, hd, rfl⟩ := h
    simp only [Bool.and_eq_true] at hc
    rw [toLower_of_space hc.2] at hc
    exact ⟨d, hd, by simp [hc]⟩
  isSpace_lower_last l c h hc := by
    simp only [List.getLast?_map, Option.map_eq_some_iff] at h
    obtain ⟨d, hd, rfl⟩ := h
    simp only [Bool.and_eq_true] at hc
    rw [toLower_of_space hc.2] at hc
    exact ⟨d, hd, by simp [hc]⟩

namespace Text
variable [Unicode]

/-- `str.strip`. -/
def strip (l : Text) : Text := (l.dropWhile Unicode.isSpace).rdropWhile Unicode.isSpace

/-- `str.isdigit`: some code point, and only digits. -/
def allDigits (l : Text) : Bool := !l.isEmpty && l.all Unicode.isDigit

/-- `int` on digits: refused on a digit without a decimal value, and on more digits
than the interpreter converts. -/
def toInt? (l : Text) : Option ℕ :=
  if 4300 < l.length then none
  else (l.mapM Unicode.decimal).map (List.foldl (fun n d => 10 * n + d) 0)

end Text

namespace Text

/-- `s.split(c, 1)[0]`: the text before the first separator, or all of it. -/
def before (c : Char) (l : Text) : Text := l.takeWhile (· != c)

/-- `s.split(c, 1)[1]`, the text after the first separator. -/
def after (c : Char) (l : Text) : Text := (l.dropWhile (· != c)).tail

/-- `s.rpartition(c)[2]`: the text after the last separator, or all of it. -/
def afterLast (c : Char) (l : Text) : Text := l.rtakeWhile (· != c)

/-- `s.split(sep, 1)` for a longer separator: the texts on both sides of its first
occurrence. -/
def cut (sep : Text) : Text → Option (Text × Text)
  | [] => if sep.isPrefixOf [] then some ([], []) else none
  | c :: cs =>
    if sep.isPrefixOf (c :: cs) then some ([], (c :: cs).drop sep.length)
    else (cut sep cs).map fun p => (c :: p.1, p.2)

/-- `s.split(c)`: every field, empty fields included. -/
def fields (c : Char) (l : Text) : List Text := l.splitOn c

/-- White space around an integer: `int` does not skip the ASCII separators. -/
def intSpace [Unicode] (c : Char) : Bool :=
  if isAscii c then (9 ≤ c.toNat && c.toNat ≤ 13) || c.toNat == 32 else Unicode.isSpace c

/-- Digits that single underscores may part. -/
def groupedInt? [Unicode] (l : Text) : Option ℕ :=
  let groups := fields '_' l
  if groups.any List.isEmpty then none else toInt? groups.flatten

/-- `int` on a string: a sign and digits, with white space around them. -/
def integer? [Unicode] (l : Text) : Option ℤ :=
  match (l.dropWhile intSpace).rdropWhile intSpace with
  | '-' :: digits => (groupedInt? digits).map fun n => -(n : ℤ)
  | '+' :: digits => (groupedInt? digits).map Int.ofNat
  | digits => (groupedInt? digits).map Int.ofNat

/-! ## Cutting at the first separator -/

theorem before_append_after {c : Char} {l : Text} (h : c ∈ l) :
    before c l ++ c :: after c l = l := by
  have hne : l.dropWhile (· != c) ≠ [] := by
    intro hnil
    have := List.dropWhile_eq_nil_iff.mp hnil c h
    simp at this
  obtain ⟨d, ds, hd⟩ := List.exists_cons_of_ne_nil hne
  have hdc : d = c := by
    have := List.head_dropWhile_not (· != c) hne
    simpa [hd] using this
  conv_rhs => rw [← List.takeWhile_append_dropWhile (p := (· != c)) (l := l), hd, hdc]
  simp [before, after, hd]

theorem before_of_notMem {c : Char} {l : Text} (h : c ∉ l) : before c l = l := by
  refine List.takeWhile_eq_self_iff.mpr fun d hd => ?_
  have : d ≠ c := fun hdc => h (hdc ▸ hd)
  simpa using this

theorem notMem_before (c : Char) (l : Text) : c ∉ before c l := by
  intro h
  have := List.mem_takeWhile_imp h
  simp at this

@[simp] theorem before_append_cons {c : Char} {a : Text} (h : c ∉ a) (b : Text) :
    before c (a ++ c :: b) = a := by
  have ha : ∀ d ∈ a, (d != c) = true := fun d hd => by
    have : d ≠ c := fun hdc => h (hdc ▸ hd)
    simpa using this
  simp [before, List.takeWhile_append_of_pos ha]

@[simp] theorem after_append_cons {c : Char} {a : Text} (h : c ∉ a) (b : Text) :
    after c (a ++ c :: b) = b := by
  have ha : ∀ d ∈ a, (d != c) = true := fun d hd => by
    have : d ≠ c := fun hdc => h (hdc ▸ hd)
    simpa using this
  simp [after, List.dropWhile_append_of_pos ha]

theorem afterLast_of_notMem {c : Char} {l : Text} (h : c ∉ l) : afterLast c l = l := by
  refine List.rtakeWhile_eq_self_iff.mpr fun d hd => ?_
  have : d ≠ c := fun hdc => h (hdc ▸ hd)
  simpa using this

theorem afterLast_append_cons {c : Char} (a : Text) {b : Text} (h : c ∉ b) :
    afterLast c (a ++ c :: b) = b := by
  have hb : ∀ d ∈ b.reverse, (d != c) = true := fun d hd => by
    have : d ≠ c := fun hdc => h (hdc ▸ List.mem_reverse.mp hd)
    simpa using this
  simp [afterLast, List.rtakeWhile, List.takeWhile_append_of_pos hb]

/-! ## Cutting at a longer separator -/

theorem eq_append_of_cut {sep l a b : Text} (h : cut sep l = some (a, b)) :
    l = a ++ sep ++ b := by
  induction l generalizing a b with
  | nil =>
    simp only [cut] at h
    split at h
    · rename_i hp
      obtain ⟨rfl, rfl⟩ : [] = a ∧ [] = b := by simpa using h
      simpa using hp
    · simp at h
  | cons c cs ih =>
    simp only [cut] at h
    split at h
    · rename_i hp
      obtain ⟨rfl, rfl⟩ : [] = a ∧ List.drop sep.length (c :: cs) = b := by simpa using h
      obtain ⟨t, ht⟩ := List.isPrefixOf_iff_prefix.mp hp
      simp [← ht]
    · obtain ⟨⟨a', b'⟩, hcut, hab⟩ := Option.map_eq_some_iff.mp h
      obtain ⟨rfl, rfl⟩ : c :: a' = a ∧ b' = b := by simpa using hab
      simp [ih hcut]

/-- A separator that starts with a code point absent from `a` is found right after `a`. -/
theorem cut_append {s : Char} {ss a : Text} (h : s ∉ a) (b : Text) :
    cut (s :: ss) (a ++ s :: ss ++ b) = some (a, b) := by
  induction a with
  | nil =>
    have hp : (s :: ss).isPrefixOf (s :: (ss ++ b)) = true := by
      simp [List.isPrefixOf_iff_prefix]
    simp [cut, hp]
  | cons c cs ih =>
    have hcs : c ≠ s := fun hc => h (hc ▸ List.mem_cons_self)
    have hp : (s :: ss).isPrefixOf (c :: (cs ++ s :: (ss ++ b))) = false := by
      simp [List.isPrefixOf, hcs.symm]
    have := ih fun hm => h (List.mem_cons_of_mem _ hm)
    simp only [List.append_assoc, List.cons_append] at this ⊢
    simp [cut, hp, this]

theorem cut_eq_none_iff {sep l : Text} : cut sep l = none ↔ ¬ sep <:+: l := by
  induction l with
  | nil => cases sep <;> simp [cut]
  | cons c cs ih =>
    simp only [cut, List.infix_cons_iff, ← List.isPrefixOf_iff_prefix]
    by_cases hp : sep.isPrefixOf (c :: cs) = true
    · simp [hp]
    · simp [hp, ih]

/-- The first occurrence does not depend on what follows it. -/
theorem cut_congr {sep a : Text} {b : Text} (b' : Text)
    (h : cut sep (a ++ sep ++ b) = some (a, b)) : cut sep (a ++ sep ++ b') = some (a, b') := by
  have hhere (t : Text) : sep.isPrefixOf (sep ++ t) = true := by
    simp [List.isPrefixOf_iff_prefix]
  induction a with
  | nil =>
    rcases hs : sep ++ b' with - | ⟨d, ds⟩
    · simp only [List.append_eq_nil_iff] at hs
      simp [hs.1, hs.2, cut]
    · have hp := hhere b'
      have hd : List.drop sep.length (d :: ds) = b' := by rw [← hs]; simp
      rw [hs] at hp
      simp only [List.nil_append, hs, cut, hp, if_true, hd]
  | cons c cs ih =>
    have hlen : sep.length ≤ (c :: (cs ++ sep)).length := by
      simp only [List.length_cons, List.length_append]
      omega
    have hind (t : Text) : sep.isPrefixOf (c :: (cs ++ sep ++ t)) =
        sep.isPrefixOf (c :: (cs ++ sep)) := by
      rw [Bool.eq_iff_iff, List.isPrefixOf_iff_prefix, List.isPrefixOf_iff_prefix,
        ← List.cons_append]
      exact ⟨fun hp => List.prefix_of_prefix_length_le hp (List.prefix_append _ _) hlen,
        fun hp => hp.trans (List.prefix_append _ _)⟩
    simp only [List.cons_append, cut, hind] at h ⊢
    split at h
    · simp at h
    · rename_i hn
      obtain ⟨⟨p, q⟩, hcut, hpq⟩ := Option.map_eq_some_iff.mp h
      obtain ⟨rfl, rfl⟩ : p = cs ∧ q = b := by simpa using hpq
      rw [if_neg hn, ih hcut]
      rfl

/-! ## Splitting at every separator -/

theorem fields_append_cons (c : Char) (a b : Text) :
    fields c (a ++ c :: b) = fields c a ++ fields c b := List.splitOn_append_cons_self a b

theorem fields_of_notMem {c : Char} {l : Text} (h : c ∉ l) : fields c l = [l] :=
  List.splitOn_eq_singleton h

/-- A text without the separator, or a first field and the text after its separator. -/
theorem fields_cases (c : Char) (l : Text) :
    c ∉ l ∧ fields c l = [l] ∨
      ∃ a b, c ∉ a ∧ l = a ++ c :: b ∧ fields c l = a :: fields c b := by
  by_cases h : c ∈ l
  · refine .inr ⟨before c l, after c l, notMem_before c l, (before_append_after h).symm, ?_⟩
    conv_lhs => rw [← before_append_after h, fields_append_cons,
      fields_of_notMem (notMem_before c l)]
    rfl
  · exact .inl ⟨h, fields_of_notMem h⟩

/-- A field that is not empty ends a beginning of the text, before a separator or at its end. -/
theorem exists_prefix_of_mem_fields {c : Char} {s l : Text} (h : s ∈ fields c l) (hs : s ≠ []) :
    ∃ q, (l = q ∨ ∃ r, l = q ++ c :: r) ∧ s ∈ fields c q ∧ q.getLast? ≠ some c := by
  induction hn : l.length using Nat.strong_induction_on generalizing l with
  | _ n ih =>
  subst hn
  rcases fields_cases c l with ⟨hc, hl⟩ | ⟨a, b, hc, rfl, hl⟩
  · refine ⟨l, .inl rfl, h, fun hlast => hc (List.mem_of_getLast? hlast)⟩
  · rw [hl] at h
    rcases List.mem_cons.mp h with rfl | h
    · exact ⟨s, .inr ⟨b, rfl⟩, by simp [fields_of_notMem hc],
        fun hlast => hc (List.mem_of_getLast? hlast)⟩
    · obtain ⟨q, hq, hmem, hlast⟩ := ih b.length (by simp; omega) h rfl
      have hne : q ≠ [] := by
        rintro rfl
        simp [fields] at hmem
        exact hs hmem
      refine ⟨a ++ c :: q, ?_, ?_, ?_⟩
      · rcases hq with rfl | ⟨r, rfl⟩
        · exact .inl rfl
        · exact .inr ⟨r, by simp⟩
      · rw [fields_append_cons]
        exact List.mem_append_right _ hmem
      · rw [List.getLast?_append_cons, List.getLast?_cons, List.getLast?_eq_getLast_of_ne_nil hne,
          Option.getD_some]
        rwa [List.getLast?_eq_getLast_of_ne_nil hne] at hlast

/-! ## Trimming -/

theorem rdropWhile_append_all {p : Char → Bool} {a b : Text} (hb : ∀ c ∈ b, p c = true) :
    (a ++ b).rdropWhile p = a.rdropWhile p := by
  have hnil : b.reverse.dropWhile p = [] :=
    List.dropWhile_eq_nil_iff.mpr fun c hc => hb c (List.mem_reverse.mp hc)
  simp [List.rdropWhile, List.dropWhile_append, hnil]

theorem rdropWhile_append_cons {p : Char → Bool} (a : Text) {c : Char} (b : Text)
    (hc : p c = false) : (a ++ c :: b).rdropWhile p = a ++ c :: b.rdropWhile p := by
  have h : ∀ l : Text, (l ++ c :: a.reverse).dropWhile p = l.dropWhile p ++ c :: a.reverse := by
    intro l
    induction l with
    | nil => simp [hc]
    | cons d ds ih =>
      rw [List.cons_append, List.dropWhile_cons, List.dropWhile_cons, ih]
      split <;> rfl
  simp only [List.rdropWhile, List.reverse_append, List.reverse_cons, List.append_assoc,
    List.singleton_append, h]
  simp

variable [Unicode]

theorem strip_eq_self {l : Text} (hh : ∀ c ∈ l.head?, Unicode.isSpace c = false)
    (ht : ∀ c ∈ l.getLast?, Unicode.isSpace c = false) : strip l = l := by
  have h1 : l.dropWhile Unicode.isSpace = l := by
    cases l with
    | nil => rfl
    | cons c cs => simp [hh c (by simp)]
  rw [strip, h1]
  cases l using List.reverseRecOn with
  | nil => rfl
  | append_singleton cs c =>
    rw [List.rdropWhile_concat_neg]
    simp [ht c (by simp)]

theorem head?_strip {l : Text} {c : Char} (h : (strip l).head? = some c) :
    Unicode.isSpace c = false := by
  obtain ⟨t, ht⟩ := List.head?_eq_some_iff.mp h
  have hpre : strip l <+: l.dropWhile Unicode.isSpace := List.rdropWhile_prefix ..
  obtain ⟨u, hu⟩ := hpre
  have hne : l.dropWhile Unicode.isSpace ≠ [] := by rw [← hu, ht]; simp
  have := List.head_dropWhile_not Unicode.isSpace hne
  simpa [← hu, ht] using this

theorem getLast?_strip {l : Text} {c : Char} (h : (strip l).getLast? = some c) :
    Unicode.isSpace c = false := by
  have hne : (l.dropWhile Unicode.isSpace).rdropWhile Unicode.isSpace ≠ [] := by
    intro hnil
    simp [strip, hnil] at h
  have := List.rdropWhile_last_not Unicode.isSpace _ hne
  rw [strip, List.getLast?_eq_getLast_of_ne_nil hne, Option.some.injEq] at h
  simpa [h] using this

/-- Case folding of a trimmed text leaves nothing to trim. -/
theorem strip_lower_strip (l : Text) :
    strip (Unicode.lower (strip l)) = Unicode.lower (strip l) := by
  refine strip_eq_self (fun c hc => ?_) (fun c hc => ?_)
  · by_contra hs
    obtain ⟨d, hd, hsp⟩ := Unicode.isSpace_lower_head _ _ hc (by simpa using hs)
    simp [head?_strip hd] at hsp
  · by_contra hs
    obtain ⟨d, hd, hsp⟩ := Unicode.isSpace_lower_last _ _ hc (by simpa using hs)
    simp [getLast?_strip hd] at hsp

@[simp] theorem lower_nil : Unicode.lower [] = [] := by
  simp [Unicode.lower_ascii]

theorem mem_lower_mark {c : Char} (hc : isMark c = true) {l : Text} :
    c ∈ Unicode.lower l ↔ c ∈ l := by
  rw [← List.count_pos_iff, ← List.count_pos_iff, Unicode.lower_count_mark l c hc]

/-- Folding a text folds its fields. -/
theorem fields_lower {c : Char} (hc : isBoundary c = true) (l : Text) :
    fields c (Unicode.lower l) = (fields c l).map Unicode.lower := by
  induction hn : l.length using Nat.strong_induction_on generalizing l with
  | _ n ih =>
  subst hn
  have hmark := isMark_of_isBoundary hc
  rcases fields_cases c l with ⟨hl, hfields⟩ | ⟨a, b, ha, rfl, hfields⟩
  · rw [hfields, fields_of_notMem fun h => hl ((mem_lower_mark hmark).mp h)]
    rfl
  · rw [hfields, Unicode.lower_boundary _ _ _ hc, fields_append_cons,
      fields_of_notMem fun h => ha ((mem_lower_mark hmark).mp h), ih b.length (by simp; omega) b rfl]
    rfl

end Text
end Lib
