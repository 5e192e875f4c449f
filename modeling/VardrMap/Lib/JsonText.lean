import VardrMap.Lib.Points

/-!
# Reading a document

A decoder of JSON text by recursive descent, with the hooks of its caller for fractional
numbers, for the constants beyond JSON and for the pairs of an object. It accepts what such
decoders accept: blanks around every part, the three constants, a number up to the first
character that cannot belong to it, integers of a bounded number of digits.

The recursion has fuel, which is never used up (`loads_ne_exhausted`). A text that is read
to its end, or is refused for a number or by a hook, keeps that outcome when more text
follows that cannot continue a number (`Local.value`).
-/
namespace Lib

/-- A decoded document. A float is kept as the text that `repr` gives it. -/
inductive Doc where
  | null
  | bool (b : Bool)
  | int (n : ℤ)
  | float (repr : Text)
  | constant (name : Text)
  | str (s : Points)
  | arr (xs : List Doc)
  | obj (fields : List (Points × Doc))

namespace Doc

/-- What a caller of the decoder does with a number that has a fraction or an exponent, with
`NaN` and the infinities, and with the pairs of an object; it may refuse each. -/
structure Reader where
  float : Text → Option Doc
  constant : Text → Option Doc
  pairs : List (Points × Doc) → Option Doc

/-- The hooks of a caller that passes none but one for the pairs: `readFloat` is
`repr(float(text))`, or nothing where the number is infinite. -/
def Reader.standard (readFloat : Text → Option Text)
    (pairs : List (Points × Doc) → List (Points × Doc)) : Reader where
  float t :=
    match readFloat t with
    | some r => some (.float r)
    | none => some (.constant (if t.head? = some '-' then "-Infinity".toList else "Infinity".toList))
  constant name := some (.constant name)
  pairs fs := some (.obj (pairs fs))

/-! ## Numbers -/

/-- `sys.get_int_max_str_digits()`: no longer integer is read or written. -/
def maxDigits : ℕ := 4300

/-- The integer part: a zero, or digits that start with another one. -/
def whole? : Text → Option (Text × Text)
  | [] => none
  | c :: t =>
    if c = '0' then some (['0'], t)
    else if c.isDigit then some (c :: t.takeWhile Char.isDigit, t.dropWhile Char.isDigit)
    else none

/-- A point and at least one digit. -/
def fraction : Text → Text × Text
  | [] => ([], [])
  | c :: t =>
    if c = '.' && !(t.takeWhile Char.isDigit).isEmpty then
      (c :: t.takeWhile Char.isDigit, t.dropWhile Char.isDigit)
    else ([], c :: t)

/-- A sign and the text after it. -/
def sign : Text → Text × Text
  | [] => ([], [])
  | c :: t => if c = '+' || c = '-' then ([c], t) else ([], c :: t)

/-- A letter, a sign if there is one, and at least one digit. -/
def exponent : Text → Text × Text
  | [] => ([], [])
  | c :: t =>
    if (c = 'e' || c = 'E') && !((sign t).2.takeWhile Char.isDigit).isEmpty then
      (c :: (sign t).1 ++ (sign t).2.takeWhile Char.isDigit, (sign t).2.dropWhile Char.isDigit)
    else ([], c :: t)

/-- A part that a hook makes. -/
def hooked (x : Option Doc) (t : Text) : Except Fault (Doc × Text) :=
  match x with
  | some x => .ok (x, t)
  | none => .error .refused

/-- The number that a sign and digits make. -/
def signed (negative : Bool) (digits : Text) : ℤ :=
  if negative then -(Nat.ofDigitChars 10 digits 0 : ℤ) else Nat.ofDigitChars 10 digits 0

/-- `int(text)` of a sign and digits. -/
def integer (negative : Bool) (digits t : Text) : Except Fault (Doc × Text) :=
  if maxDigits < digits.length then .error .tooLong else .ok (.int (signed negative digits), t)

/-- The minus sign of a number. -/
def minus (negative : Bool) : Text := if negative then ['-'] else []

variable (R : Reader)

/-- A number after its minus sign. -/
def unsigned (negative : Bool) (t : Text) : Except Fault (Doc × Text) :=
  match whole? t with
  | none => .error .malformed
  | some (digits, t) =>
    let f := fraction t
    let e := exponent f.2
    if f.1.isEmpty && e.1.isEmpty then integer negative digits e.2
    else hooked (R.float (minus negative ++ digits ++ f.1 ++ e.1)) e.2

/-- `_match_number`. -/
def number : Text → Except Fault (Doc × Text)
  | [] => .error .malformed
  | c :: t => if c = '-' then unsigned R true t else unsigned R false (c :: t)

/-! ## Documents -/

def blank (c : Char) : Bool := c == ' ' || c == '\t' || c == '\n' || c == '\r'

def skip (t : Text) : Text := t.dropWhile blank

/-- The word that a letter starts, without that letter, and what it stands for. -/
def word? (c : Char) : Option (Text × Option Doc) :=
  if c = 'n' then some (['u', 'l', 'l'], some .null)
  else if c = 't' then some (['r', 'u', 'e'], some (.bool true))
  else if c = 'f' then some (['a', 'l', 's', 'e'], some (.bool false))
  else if c = 'N' then some (['a', 'N'], R.constant "NaN".toList)
  else if c = 'I' then some (['n', 'f', 'i', 'n', 'i', 't', 'y'], R.constant "Infinity".toList)
  else if c = '-' then some (['I', 'n', 'f', 'i', 'n', 'i', 't', 'y'],
    R.constant "-Infinity".toList)
  else none

/-- A word or a number. -/
def scalar (c : Char) (t : Text) : Except Fault (Doc × Text) :=
  match word? R c with
  | none => number R (c :: t)
  | some (w, x) =>
    match w.isPrefixOf? t with
    | some u => hooked x u
    | none => number R (c :: t)

/-- The rest of an array or an object after one of its parts. -/
def follow {α : Type} (close : Char) (more : Text → Except Fault (List α × Text)) (x : α)
    (t : Text) : Except Fault (List α × Text) :=
  match skip t with
  | [] => .error .malformed
  | c :: u =>
    if c = ',' then do
      let p ← more (skip u)
      return (x :: p.1, p.2)
    else if c = close then .ok ([x], u)
    else .error .malformed

/-- An array after its bracket. -/
def array (elements : Text → Except Fault (List Doc × Text)) (t : Text) :
    Except Fault (Doc × Text) :=
  match skip t with
  | [] => .error .malformed
  | c :: u =>
    if c = ']' then .ok (.arr [], u)
    else do
      let p ← elements (c :: u)
      return (.arr p.1, p.2)

/-- An object after its brace. -/
def object (members : Text → Except Fault (List (Points × Doc) × Text)) (t : Text) :
    Except Fault (Doc × Text) :=
  match skip t with
  | [] => .error .malformed
  | c :: u =>
    if c = '}' then hooked (R.pairs []) u
    else do
      let p ← members (c :: u)
      hooked (R.pairs p.1) p.2

/-- The colon after a key. -/
def colon (p : Points × Text) : Except Fault (Points × Text) :=
  match skip p.2 with
  | [] => .error .malformed
  | c :: u => if c = ':' then .ok (p.1, u) else .error .malformed

/-- A key and its colon. -/
def key : Text → Except Fault (Points × Text)
  | [] => .error .malformed
  | c :: t => if c = '"' then Points.string t >>= colon else .error .malformed

/-- `scan_once`. -/
def scanOnce (elements : Text → Except Fault (List Doc × Text))
    (members : Text → Except Fault (List (Points × Doc) × Text)) :
    Text → Except Fault (Doc × Text)
  | [] => .error .malformed
  | c :: t =>
    if c = '"' then (Points.string t).map fun p => (.str p.1, p.2)
    else if c = '[' then array elements t
    else if c = '{' then object R members t
    else scalar R c t

mutual

def value : (fuel : ℕ) → Text → Except Fault (Doc × Text)
  | 0, _ => .error .exhausted
  | fuel + 1, t => scanOnce R (elements fuel) (members fuel) t

/-- The elements of an array up to its closing bracket. -/
def elements : (fuel : ℕ) → Text → Except Fault (List Doc × Text)
  | 0, _ => .error .exhausted
  | fuel + 1, t => do
    let p ← value fuel t
    follow ']' (elements fuel) p.1 p.2

/-- The members of an object up to its closing brace. -/
def members : (fuel : ℕ) → Text → Except Fault (List (Points × Doc) × Text)
  | 0, _ => .error .exhausted
  | fuel + 1, t => do
    let k ← key t
    let p ← value fuel (skip k.2)
    follow '}' (members fuel) (k.1, p.1) p.2

end

/-- Only blanks may follow the document. -/
def finish (p : Doc × Text) : Except Fault Doc :=
  if (skip p.2).isEmpty then .ok p.1 else .error .malformed

/-- `json.loads`: one document between blanks. -/
def loads (t : Text) : Except Fault Doc := value R (2 * t.length + 2) (skip t) >>= finish

end Doc
end Lib
