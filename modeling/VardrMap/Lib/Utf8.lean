import VardrMap.Lib.Sha256

/-!
# UTF-8

A strict decoder, which undoes the encoder, and one that puts a replacement character for
every beginning of an encoding that is not completed.
-/
namespace Lib

namespace Utf8

/-- `text.encode()`. -/
def encode (t : Text) : List UInt8 := t.flatMap String.utf8EncodeChar

/-- `data.decode("utf-8")`. -/
def decode? (data : List UInt8) : Option Text := data.toByteArray.utf8Decode?.map Array.toList

@[simp] theorem decode?_encode (t : Text) : decode? (encode t) = some t := by
  have hencode : (encode t).toByteArray = t.utf8Encode := rfl
  rw [decode?, hencode, List.utf8Decode?_utf8Encode, Option.map_some]

/-- How many bytes must follow a first byte. -/
def announced (b : ℕ) : ℕ :=
  if 194 ≤ b && b ≤ 223 then 1
  else if 224 ≤ b && b ≤ 239 then 2
  else if 240 ≤ b && b ≤ 244 then 3
  else 0

def continues (b : ℕ) : Bool := 128 ≤ b && b ≤ 191

/-- The second bytes that a first byte allows: no overlong form, no surrogate, nothing
beyond the last code point. -/
def continuesFirst (b c : ℕ) : Bool :=
  if b = 224 then 160 ≤ c && c ≤ 191
  else if b = 237 then 128 ≤ c && c ≤ 159
  else if b = 240 then 144 ≤ c && c ≤ 191
  else if b = 244 then 128 ≤ c && c ≤ 143
  else continues c

/-- The length of the incomplete encoding at the front, one byte at least. -/
def incomplete : List UInt8 → ℕ
  | b :: c :: d :: _ =>
    if 2 ≤ announced b.toNat && continuesFirst b.toNat c.toNat then
      if announced b.toNat = 3 && continues d.toNat then 3 else 2
    else 1
  | [b, c] => if 2 ≤ announced b.toNat && continuesFirst b.toNat c.toNat then 2 else 1
  | _ => 1

/-- The text of the bytes, a replacement character for every incomplete encoding. -/
def replaced : (fuel : ℕ) → List UInt8 → Text
  | 0, _ | _ + 1, [] => []
  | fuel + 1, b :: bs =>
    match (b :: bs).toByteArray.utf8DecodeChar? 0 with
    | some c => c :: replaced fuel ((b :: bs).drop c.utf8Size)
    | none => '\uFFFD' :: replaced fuel ((b :: bs).drop (incomplete (b :: bs)))

/-- `data.decode("utf-8", errors="replace")`. -/
def decodeReplace (data : List UInt8) : Text := (decode? data).getD (replaced data.length data)

@[simp] theorem decodeReplace_encode (t : Text) : decodeReplace (encode t) = t := by
  rw [decodeReplace, decode?_encode, Option.getD_some]

end Utf8
end Lib
