import Mathlib.Algebra.Group.Nat.Defs
import Mathlib.Data.List.Sort
import VardrMap.Lib.Json

/-!
# Canonical JSON texts and their SHA-256 digest

The encoder writes dictionaries with sorted keys, no blanks and ASCII only. Words of the hash are numbers below `2 ^ 32`.
-/
namespace Lib
namespace Sha256

def roundConstants : List ℕ :=
  [0x428a2f98, 0x71374491, 0xb5c0fbcf, 0xe9b5dba5, 0x3956c25b, 0x59f111f1, 0x923f82a4, 0xab1c5ed5,
   0xd807aa98, 0x12835b01, 0x243185be, 0x550c7dc3, 0x72be5d74, 0x80deb1fe, 0x9bdc06a7, 0xc19bf174,
   0xe49b69c1, 0xefbe4786, 0x0fc19dc6, 0x240ca1cc, 0x2de92c6f, 0x4a7484aa, 0x5cb0a9dc, 0x76f988da,
   0x983e5152, 0xa831c66d, 0xb00327c8, 0xbf597fc7, 0xc6e00bf3, 0xd5a79147, 0x06ca6351, 0x14292967,
   0x27b70a85, 0x2e1b2138, 0x4d2c6dfc, 0x53380d13, 0x650a7354, 0x766a0abb, 0x81c2c92e, 0x92722c85,
   0xa2bfe8a1, 0xa81a664b, 0xc24b8b70, 0xc76c51a3, 0xd192e819, 0xd6990624, 0xf40e3585, 0x106aa070,
   0x19a4c116, 0x1e376c08, 0x2748774c, 0x34b0bcb5, 0x391c0cb3, 0x4ed8aa4a, 0x5b9cca4f, 0x682e6ff3,
   0x748f82ee, 0x78a5636f, 0x84c87814, 0x8cc70208, 0x90befffa, 0xa4506ceb, 0xbef9a3f7, 0xc67178f2]

/-- The eight working words. -/
structure Words where
  a : ℕ
  b : ℕ
  c : ℕ
  d : ℕ
  e : ℕ
  f : ℕ
  g : ℕ
  h : ℕ

def initial : Words :=
  ⟨0x6a09e667, 0xbb67ae85, 0x3c6ef372, 0xa54ff53a, 0x510e527f, 0x9b05688c, 0x1f83d9ab, 0x5be0cd19⟩

def add (x y : ℕ) : ℕ := (x + y) % 2 ^ 32

def rotr (n x : ℕ) : ℕ := (x >>> n ||| x <<< (32 - n)) % 2 ^ 32

/-- The next word of the message schedule, from the words so far, newest first. -/
def scheduleWord (ws : List ℕ) : ℕ :=
  let w15 := ws.getD 14 0
  let w2 := ws.getD 1 0
  let s0 := rotr 7 w15 ^^^ rotr 18 w15 ^^^ w15 >>> 3
  let s1 := rotr 17 w2 ^^^ rotr 19 w2 ^^^ w2 >>> 10
  add (add (ws.getD 15 0) s0) (add (ws.getD 6 0) s1)

def extend : ℕ → List ℕ → List ℕ
  | 0, ws => ws
  | n + 1, ws => extend n (scheduleWord ws :: ws)

def round (s : Words) (kw : ℕ × ℕ) : Words :=
  let s1 := rotr 6 s.e ^^^ rotr 11 s.e ^^^ rotr 25 s.e
  let ch := (s.e &&& s.f) ^^^ ((2 ^ 32 - 1 - s.e) &&& s.g)
  let t1 := add (add s.h s1) (add ch (add kw.1 kw.2))
  let s0 := rotr 2 s.a ^^^ rotr 13 s.a ^^^ rotr 22 s.a
  let maj := (s.a &&& s.b) ^^^ (s.a &&& s.c) ^^^ (s.b &&& s.c)
  ⟨add t1 (add s0 maj), s.a, s.b, s.c, add s.d t1, s.e, s.f, s.g⟩

/-- One block of sixteen words. -/
def compress (s : Words) (block : List ℕ) : Words :=
  let ws := (extend 48 block.reverse).reverse
  let t := (roundConstants.zip ws).foldl round s
  ⟨add s.a t.a, add s.b t.b, add s.c t.c, add s.d t.d, add s.e t.e, add s.f t.f, add s.g t.g,
    add s.h t.h⟩

/-- The bytes of `n`, most significant first. -/
def bytesOf : (width : ℕ) → ℕ → List ℕ
  | 0, _ => []
  | width + 1, n => bytesOf width (n / 256) ++ [n % 256]

def padded (bytes : List ℕ) : List ℕ :=
  bytes ++ 128 :: List.replicate ((55 + 64 - bytes.length % 64) % 64) 0 ++
    bytesOf 8 (8 * bytes.length)

/-- Four bytes to a word. -/
def wordsOf : List ℕ → List ℕ
  | a :: b :: c :: d :: rest => (((a * 256 + b) * 256 + c) * 256 + d) :: wordsOf rest
  | _ => []

/-- Compress block after block; `fuel` bounds the number of blocks. -/
def blocks : (fuel : ℕ) → Words → List ℕ → Words
  | 0, s, _ => s
  | fuel + 1, s, ws => if ws.isEmpty then s else blocks fuel (compress s (ws.take 16)) (ws.drop 16)

/-- `hashlib.sha256(data).hexdigest()`. -/
def hexdigest (bytes : List ℕ) : Text :=
  let ws := wordsOf (padded bytes)
  let s := blocks ws.length initial ws
  [s.a, s.b, s.c, s.d, s.e, s.f, s.g, s.h].flatMap (Json.hex 8)

/-- The UTF-8 bytes of a text. -/
def utf8 (l : Text) : List ℕ := (l.flatMap String.utf8EncodeChar).map UInt8.toNat

/-- The digest of a text in UTF-8. -/
def ofText (l : Text) : String := String.ofList (hexdigest (utf8 l))

example : ofText "abc".toList =
    "ba7816bf8f01cfea414140de5dae2223b00361a396177a9cb410ff61f20015ad" := by decide +kernel

end Sha256

namespace Json

/-- A code unit as `\uXXXX`. -/
def escapeUnit (n : ℕ) : Text := '\\' :: 'u' :: hex 4 n

/-- One code point inside an ASCII-only JSON string. -/
def escapeChar (c : Char) : Text :=
  if c == '"' || c == '\\' then ['\\', c]
  else if c == '\n' then ['\\', 'n']
  else if c == '\r' then ['\\', 'r']
  else if c == '\t' then ['\\', 't']
  else if c.toNat == 12 then ['\\', 'f']
  else if c.toNat == 8 then ['\\', 'b']
  else if 32 ≤ c.toNat && c.toNat < 127 then [c]
  else if c.toNat < 65536 then escapeUnit c.toNat
  else escapeUnit (55296 + (c.toNat - 65536) / 1024) ++ escapeUnit (56320 + (c.toNat - 65536) % 1024)

def quote (s : String) : Text := '"' :: s.toList.flatMap escapeChar ++ ['"']

/-- `a, b, c` with commas between. -/
def commaSep (ls : List Text) : Text := [','].intercalate ls

variable (allowNan : Bool)

mutual

/-- `json.dumps(value, sort_keys=True, separators=(",", ":"), allow_nan=allowNan)`. -/
def dumps : Json → Except Exn Text
  | null => .ok "null".toList
  | bool b => .ok (if b then "true" else "false").toList
  | int n => .ok (toString n).toList
  | float _ r => .ok r.toList
  | nonfinite r => if allowNan then .ok r.toList else .error .valueError
  | str s => .ok (quote s)
  | arr xs => do
    let items ← dumpsList xs
    return '[' :: commaSep items ++ [']']
  | obj fs => do
    let items ← dumpsFields fs
    let sorted := items.insertionSort fun a b => ¬ b.1 < a.1
    return '{' :: commaSep (sorted.map fun p => quote p.1 ++ ':' :: p.2) ++ ['}']

def dumpsList : List Json → Except Exn (List Text)
  | [] => .ok []
  | x :: xs => do return (← dumps x) :: (← dumpsList xs)

def dumpsFields : List (String × Json) → Except Exn (List (String × Text))
  | [] => .ok []
  | (k, x) :: fs => do return (k, ← dumps x) :: (← dumpsFields fs)

end

end Json
end Lib
