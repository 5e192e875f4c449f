import VardrMap.Lib.Sha256

/-!
# Keyed digests

HMAC over SHA-256.
-/
namespace Lib
namespace Sha256

/-- `hashlib.sha256(data).digest()`. -/
def digest (bytes : List ℕ) : List ℕ :=
  let ws := wordsOf (padded bytes)
  let s := blocks ws.length initial ws
  [s.a, s.b, s.c, s.d, s.e, s.f, s.g, s.h].flatMap (bytesOf 4)

/-- The key as one block: hashed when it is longer, filled up with zeros. -/
def keyBlock (key : List ℕ) : List ℕ :=
  let short := if 64 < key.length then digest key else key
  short ++ List.replicate (64 - short.length) 0

/-- `hmac.new(key, message, hashlib.sha256).hexdigest()`. -/
def hmac (key message : List ℕ) : Text :=
  let block := keyBlock key
  let inner := digest (block.map (· ^^^ 0x36) ++ message)
  hexdigest (block.map (· ^^^ 0x5c) ++ inner)

end Sha256
end Lib
