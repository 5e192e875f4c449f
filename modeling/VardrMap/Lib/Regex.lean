import VardrMap.Lib.Text

/-!
# Regular expressions with backtracking

The expressions of a scripting language, matched as its engine does: of two alternatives
the first that leads to a match of the whole, and repetitions as long as possible first.
`sub` rewrites the matches of a text from left to right. The expressions it is given match
no empty text, and neither does the body of a repetition.
-/
namespace Lib

/-- The code points of words, `\w`. -/
class WordTable where
  isWord : Char → Bool
  isWord_ascii : ∀ c, isAscii c = true → isWord c = (c.isAlphanum || c == '_')

/-- The table restricted to ASCII. -/
@[reducible] def WordTable.ascii : WordTable where
  isWord c := c.isAlphanum || c == '_'
  isWord_ascii _ _ := rfl

inductive Regex where
  | empty
  | one (p : Char → Bool)
  | seq (r s : Regex)
  | alt (r s : Regex)
  | star (r : Regex)
  | group (name : String) (r : Regex)
  | same (name : String)
  | lineStart
  | lineEnd
  | wordBoundary

namespace Regex

/-- `r{n,}`. -/
def atLeast (n : ℕ) (r : Regex) : Regex := (List.replicate n r).foldr seq (star r)

/-- `r?`. -/
def opt (r : Regex) : Regex := alt r empty

def seqs (rs : List Regex) : Regex := rs.foldr seq empty

/-- A text, spelled out. -/
def literal (s : String) : Regex := seqs (s.toList.map fun c => one fun d => d == c)

/-- A character whose simple lower case is meant: two signs and two letters without a dot or
with one fold to ASCII letters too. -/
def foldCase (c : Char) : Char :=
  if c.toNat == 0x212A then 'k'
  else if c.toNat == 0x17F then 's'
  else if c.toNat == 0x130 || c.toNat == 0x131 then 'i'
  else c.toLower

/-- `(?i)` over a class that is given in lower case. -/
def ignoreCase (p : Char → Bool) (c : Char) : Bool := p (foldCase c)

/-- A place in a text: the character before it, and the text after it. -/
structure Cursor where
  prev : Option Char
  rest : Text

namespace Cursor

/-- The place `n` characters on. -/
def skip (c : Cursor) (n : ℕ) : Cursor := ⟨(c.rest.take n).getLast?.or c.prev, c.rest.drop n⟩

/-- The text from one place to a later one. -/
def upTo (c d : Cursor) : Text := c.rest.take (c.rest.length - d.rest.length)

end Cursor

/-- The named groups of a match, the last one first. -/
abbrev Groups := List (String × Text)

/-- What a group holds, nothing when it took no part in the match. -/
def Groups.get (g : Groups) (name : String) : Text := (g.lookup name).getD []

/-- How a match goes on after a place. -/
abbrev Continue := Cursor → Groups → Option (Cursor × Groups)

/-- As many rounds as lead to a match, at most `fuel`; a round takes a character at least. -/
def iterate (round : Cursor → Groups → Continue → Option (Cursor × Groups)) (k : Continue) :
    ℕ → Continue
  | 0, c, g => k c g
  | fuel + 1, c, g => (round c g (iterate round k fuel)).or (k c g)

variable [WordTable]

/-- A word begins or ends at the place. -/
def atBoundary (c : Cursor) : Bool :=
  c.prev.any WordTable.isWord != c.rest.head?.any WordTable.isWord

def run : Regex → Cursor → Groups → Continue → Option (Cursor × Groups)
  | empty, c, g, k => k c g
  | one p, c, g, k =>
    match c.rest with
    | d :: rest => if p d then k ⟨some d, rest⟩ g else none
    | [] => none
  | seq r s, c, g, k => run r c g fun c g => run s c g k
  | alt r s, c, g, k => (run r c g k).or (run s c g k)
  | star r, c, g, k => iterate (run r) k c.rest.length c g
  | group name r, c, g, k => run r c g fun d g => k d ((name, c.upTo d) :: g)
  | same name, c, g, k =>
    match g.lookup name with
    | some l => if l.isPrefixOf c.rest then k (c.skip l.length) g else none
    | none => none
  | lineStart, c, g, k => if c.prev.all (· == '\n') then k c g else none
  | lineEnd, c, g, k => if c.rest.head?.all (· == '\n') then k c g else none
  | wordBoundary, c, g, k => if atBoundary c then k c g else none

/-- The match that begins at a place: its text and its groups. -/
def matchAt (r : Regex) (c : Cursor) : Option (Text × Groups) :=
  (run r c [] fun d g => some (d, g)).map fun p => (c.upTo p.1, p.2)

/-- `r.sub(f, text)` from a place on; `skip` characters are left of the last match. -/
def subFrom (r : Regex) (f : Text → Groups → Text) : ℕ → Option Char → Text → Text
  | _, _, [] => []
  | skip + 1, _, c :: l => subFrom r f skip (some c) l
  | 0, prev, c :: l =>
    match r.matchAt ⟨prev, c :: l⟩ with
    | some (whole, g) => f whole g ++ subFrom r f (whole.length - 1) (some c) l
    | none => c :: subFrom r f 0 (some c) l

/-- `r.sub(f, text)`. -/
def sub (r : Regex) (f : Text → Groups → Text) (l : Text) : Text := subFrom r f 0 none l

/-- `r.search(text)` from a place on. -/
def searchFrom (r : Regex) : Option Char → Text → Bool
  | prev, [] => (r.matchAt ⟨prev, []⟩).isSome
  | prev, c :: l => (r.matchAt ⟨prev, c :: l⟩).isSome || searchFrom r (some c) l

/-- `r.search(text) is not None`. -/
def search (r : Regex) (l : Text) : Bool := searchFrom r none l

/-! ## What a match needs -/

/-- No match goes on anywhere in the text after a place: so there is none from the place. -/
theorem run_eq_none {r : Regex} {c : Cursor} {g : Groups} {k : Continue}
    (hk : ∀ d g', d.rest <:+ c.rest → k d g' = none) : run r c g k = none := by
  induction r generalizing c g k with
  | empty => exact hk c g List.suffix_rfl
  | one p =>
    unfold run
    split
    · rename_i d rest hrest
      split
      · exact hk _ g (hrest ▸ List.suffix_cons d rest)
      · rfl
    · rfl
  | seq r s ihr ihs =>
    exact ihr fun d g' hd => ihs fun e g'' he => hk e g'' (he.trans hd)
  | alt r s ihr ihs => simp only [run, ihr hk, ihs hk, Option.or]
  | star r ih =>
    have hiterate : ∀ fuel d g', d.rest <:+ c.rest → iterate (run r) k fuel d g' = none := by
      intro fuel
      induction fuel with
      | zero => exact hk
      | succ fuel ihf =>
        intro d g' hd
        have hround : run r d g' (iterate (run r) k fuel) = none :=
          ih fun e g'' he => ihf e g'' (he.trans hd)
        simp only [iterate, hround, hk d g' hd, Option.or]
    exact hiterate _ c g List.suffix_rfl
  | group name r ih => exact ih fun d g' hd => hk d _ hd
  | same name =>
    unfold run
    split
    · split
      · exact hk _ g (List.drop_suffix ..)
      · rfl
    · rfl
  | lineStart =>
    unfold run
    split
    · exact hk c g List.suffix_rfl
    · rfl
  | lineEnd =>
    unfold run
    split
    · exact hk c g List.suffix_rfl
    · rfl
  | wordBoundary =>
    unfold run
    split
    · exact hk c g List.suffix_rfl
    · rfl

omit [WordTable] in
/-- Every match of the expression takes a character of the class. -/
inductive Needs (p : Char → Bool) : Regex → Prop
  | one {q : Char → Bool} (h : ∀ c, q c = true → p c = true) : Needs p (one q)
  | left {r s : Regex} (h : Needs p r) : Needs p (seq r s)
  | right {r s : Regex} (h : Needs p s) : Needs p (seq r s)
  | alt {r s : Regex} (hr : Needs p r) (hs : Needs p s) : Needs p (alt r s)
  | group {name : String} {r : Regex} (h : Needs p r) : Needs p (group name r)

theorem Needs.run_eq_none {p : Char → Bool} {r : Regex} (h : Needs p r) {c : Cursor} {g : Groups}
    {k : Continue} (hc : ∀ d ∈ c.rest, p d = false) : run r c g k = none := by
  induction h generalizing c g k with
  | one hq =>
    unfold run
    split
    · rename_i d rest hrest
      have hd : p d = false := hc d (hrest ▸ List.mem_cons_self ..)
      split
      · rename_i hqd
        rw [hq d hqd] at hd
        cases hd
      · rfl
    · rfl
  | left _ ih => exact ih hc
  | right _ ih =>
    rw [run]
    exact Regex.run_eq_none fun d g' hd => ih fun e he => hc e (hd.subset he)
  | alt _ _ ihr ihs => simp only [run, ihr hc, ihs hc, Option.or]
  | group _ ih => exact ih hc

omit [WordTable] in
theorem Needs.seqs {p : Char → Bool} {r : Regex} {rs : List Regex} (h : Needs p r) (hr : r ∈ rs) :
    Needs p (seqs rs) := by
  induction rs with
  | nil => cases hr
  | cons s rs ih =>
    rcases List.mem_cons.mp hr with rfl | hr
    · exact .left h
    · exact .right (ih hr)

omit [WordTable] in
theorem Needs.literal {p : Char → Bool} {s : String} {c : Char} (hc : c ∈ s.toList)
    (h : p c = true) : Needs p (literal s) := by
  refine Needs.seqs (.one fun d hd => ?_) (List.mem_map.mpr ⟨c, hc, rfl⟩)
  rw [beq_iff_eq.mp hd]
  exact h

omit [WordTable] in
theorem Needs.atLeast {p : Char → Bool} {r : Regex} (h : Needs p r) (n : ℕ) :
    Needs p (atLeast (n + 1) r) := .left h

/-- A text without a character that every match takes is left as it is. -/
theorem Needs.sub_eq_self {p : Char → Bool} {r : Regex} (h : Needs p r)
    (f : Text → Groups → Text) {l : Text} (hl : ∀ d ∈ l, p d = false) : r.sub f l = l := by
  have hsub : ∀ prev, r.subFrom f 0 prev l = l := by
    induction l with
    | nil => exact fun _ => rfl
    | cons c l ih =>
      intro prev
      have hnone : r.matchAt ⟨prev, c :: l⟩ = none := by
        rw [matchAt, h.run_eq_none hl]
        rfl
      rw [subFrom, hnone]
      exact congrArg (c :: ·) (ih (fun d hd => hl d (List.mem_cons_of_mem c hd)) (some c))
  exact hsub none

end Regex
end Lib
