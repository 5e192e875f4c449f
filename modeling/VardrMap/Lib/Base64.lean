import Mathlib.Algebra.Group.Nat.Defs
import Mathlib.Data.List.FinRange
import VardrMap.Lib.Text

/-!
# Base64

Three bytes are written as four symbols of an alphabet of 64; the last group may hold one
or two bytes and is filled with the padding sign. The decoder is a strict one: it reads
whole groups and padding at the end only, and drops the bits that padding stands for
without looking at them. `decode_encode` is the round trip.
-/
namespace Lib

namespace Base64

/-- The padding sign. -/
def pad : Char := '='

/-- The 64 symbols of an encoding, none of them twice and none the padding sign. -/
structure Alphabet where
  symbol : Fin 64 → Char
  symbol_injective : Function.Injective symbol
  symbol_ne_pad : ∀ i, symbol i ≠ pad

/-- The number a group of bytes makes, most significant byte first. -/
def group (x y z : UInt8) : ℕ := x.toNat * 65536 + y.toNat * 256 + z.toNat

/-- One of the four sextets of a group; place 3 is the most significant one. -/
def sextet (n place : ℕ) : Fin 64 := ⟨n / 64 ^ place % 64, Nat.mod_lt _ (by decide)⟩

/-- The number that four sextets make. -/
def number (p q r s : Fin 64) : ℕ := p * 262144 + q * 4096 + r * 64 + s

/-- One of the three bytes of a group; place 2 is the most significant one. -/
def byte (n place : ℕ) : UInt8 := UInt8.ofNat (n / 256 ^ place)

@[simp] theorem byte_group_two (x y z : UInt8) : byte (group x y z) 2 = x := by
  have hx := x.toNat_lt
  have hy := y.toNat_lt
  have hz := z.toNat_lt
  refine UInt8.toNat_inj.mp ?_
  simp only [byte, group, UInt8.toNat_ofNat']
  omega

@[simp] theorem byte_group_one (x y z : UInt8) : byte (group x y z) 1 = y := by
  have hx := x.toNat_lt
  have hy := y.toNat_lt
  have hz := z.toNat_lt
  refine UInt8.toNat_inj.mp ?_
  simp only [byte, group, UInt8.toNat_ofNat']
  omega

@[simp] theorem byte_group_zero (x y z : UInt8) : byte (group x y z) 0 = z := by
  have hz := z.toNat_lt
  refine UInt8.toNat_inj.mp ?_
  simp only [byte, group, UInt8.toNat_ofNat']
  omega

theorem group_lt (x y z : UInt8) : group x y z < 16777216 := by
  have hx := x.toNat_lt
  have hy := y.toNat_lt
  have hz := z.toNat_lt
  unfold group
  omega

/-- The four sextets of a group make its number again. -/
theorem number_sextet {n : ℕ} (h : n < 16777216) :
    number (sextet n 3) (sextet n 2) (sextet n 1) (sextet n 0) = n := by
  simp only [number, sextet]
  omega

/-- A group whose last byte is zero leaves its last sextet zero, -/
theorem sextet_zero_of_group (x y : UInt8) : sextet (group x y 0) 0 = 0 := by
  refine Fin.ext ?_
  simp only [sextet, group, UInt8.toNat_zero, Fin.val_zero]
  omega

/-- and one with two zero bytes leaves the last two. -/
theorem sextet_one_of_group (x : UInt8) : sextet (group x 0 0) 1 = 0 := by
  refine Fin.ext ?_
  simp only [sextet, group, UInt8.toNat_zero, Fin.val_zero]
  omega

namespace Alphabet

variable (a : Alphabet)

/-- The sextet that a symbol stands for. -/
def index? (c : Char) : Option (Fin 64) := (List.finRange 64).find? fun i => a.symbol i == c

theorem index?_eq_some {c : Char} {i : Fin 64} : a.index? c = some i ↔ c = a.symbol i := by
  constructor
  · intro h
    unfold index? at h
    have hc := List.find?_some h
    exact (beq_iff_eq.mp hc).symm
  · rintro rfl
    unfold index?
    cases hf : (List.finRange 64).find? fun j => a.symbol j == a.symbol i with
    | none =>
      have hne := List.find?_eq_none.mp hf i (List.mem_finRange i)
      simp at hne
    | some j =>
      have hj := List.find?_some hf
      rw [a.symbol_injective (beq_iff_eq.mp hj)]

@[simp] theorem index?_symbol (i : Fin 64) : a.index? (a.symbol i) = some i :=
  a.index?_eq_some.mpr rfl

@[simp] theorem index?_pad : a.index? pad = none := by
  cases h : a.index? pad with
  | none => rfl
  | some i => exact absurd (a.index?_eq_some.mp h).symm (a.symbol_ne_pad i)

/-- The text of a byte string, filled to whole groups of four. -/
def encode : List UInt8 → Text
  | x :: y :: z :: rest =>
    let n := group x y z
    a.symbol (sextet n 3) :: a.symbol (sextet n 2) :: a.symbol (sextet n 1) ::
      a.symbol (sextet n 0) :: encode rest
  | [x, y] =>
    let n := group x y 0
    [a.symbol (sextet n 3), a.symbol (sextet n 2), a.symbol (sextet n 1), pad]
  | [x] =>
    let n := group x 0 0
    [a.symbol (sextet n 3), a.symbol (sextet n 2), pad, pad]
  | [] => []

/-- The bytes of the last group of a text, which may be padded. -/
def decodeLast (p q r s : Char) : Option (List UInt8) := do
  let p ← a.index? p
  let q ← a.index? q
  if r == pad && s == pad then
    return [byte (number p q 0 0) 2]
  let r ← a.index? r
  if s == pad then
    return [byte (number p q r 0) 2, byte (number p q r 0) 1]
  let s ← a.index? s
  let n := number p q r s
  return [byte n 2, byte n 1, byte n 0]

/-- The bytes of a text in whole groups, `none` when it is not well formed. -/
def decode : Text → Option (List UInt8)
  | [] => some []
  | [p, q, r, s] => a.decodeLast p q r s
  | p :: q :: r :: s :: rest => do
    let p ← a.index? p
    let q ← a.index? q
    let r ← a.index? r
    let s ← a.index? s
    let n := number p q r s
    return byte n 2 :: byte n 1 :: byte n 0 :: (← decode rest)
  | _ => none

/-- A group in front of others is read without padding. -/
theorem decode_group (x y z : UInt8) {rest : Text} {bytes : List UInt8}
    (h : a.decode rest = some bytes) :
    a.decode (a.symbol (sextet (group x y z) 3) :: a.symbol (sextet (group x y z) 2) ::
      a.symbol (sextet (group x y z) 1) :: a.symbol (sextet (group x y z) 0) :: rest) =
        some (x :: y :: z :: bytes) := by
  have hn := number_sextet (group_lt x y z)
  cases rest with
  | nil =>
    obtain rfl : bytes = [] := by simpa [decode] using h.symm
    simp [decode, decodeLast, a.symbol_ne_pad, hn]
  | cons c rest => simp [decode, h, hn]

/-- Reading what was written gives the bytes back. -/
theorem decode_encode (bytes : List UInt8) : a.decode (a.encode bytes) = some bytes := by
  induction bytes using encode.induct with
  | case1 x y z rest ih => exact a.decode_group x y z ih
  | case2 x y =>
    have hn := number_sextet (group_lt x y 0)
    rw [sextet_zero_of_group] at hn
    simp [encode, decode, decodeLast, a.symbol_ne_pad, hn]
  | case3 x =>
    have hn := number_sextet (group_lt x 0 0)
    rw [sextet_zero_of_group, sextet_one_of_group] at hn
    simp [encode, decode, decodeLast, hn]
  | case4 => rfl

/-- An encoded text is symbols, of a number that the byte count sets, and then the padding
that fills the last group. -/
theorem encode_eq (bytes : List UInt8) : ∃ body : Text, (∀ c ∈ body, ∃ i, c = a.symbol i) ∧
    body.length = (4 * bytes.length + 2) / 3 ∧
    a.encode bytes = body ++ List.replicate ((4 - body.length % 4) % 4) pad := by
  induction bytes using encode.induct with
  | case1 x y z rest ih =>
    obtain ⟨body, hsymbols, hlength, henc⟩ := ih
    let n := group x y z
    refine ⟨a.symbol (sextet n 3) :: a.symbol (sextet n 2) :: a.symbol (sextet n 1) ::
      a.symbol (sextet n 0) :: body, ?_, ?_, ?_⟩
    · simp only [List.mem_cons, forall_eq_or_imp]
      exact ⟨⟨_, rfl⟩, ⟨_, rfl⟩, ⟨_, rfl⟩, ⟨_, rfl⟩, hsymbols⟩
    · simp only [List.length_cons]
      omega
    · simp only [encode, henc, List.length_cons, List.cons_append, Nat.add_mod_right, n,
        Nat.add_assoc, Nat.reduceAdd]
  | case2 x y =>
    let n := group x y 0
    exact ⟨[a.symbol (sextet n 3), a.symbol (sextet n 2), a.symbol (sextet n 1)], by simp, by simp,
      rfl⟩
  | case3 x =>
    let n := group x 0 0
    exact ⟨[a.symbol (sextet n 3), a.symbol (sextet n 2)], by simp, by simp, rfl⟩
  | case4 => exact ⟨[], by simp, rfl, rfl⟩

end Alphabet
end Base64
end Lib
