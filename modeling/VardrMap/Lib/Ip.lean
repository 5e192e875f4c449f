import Mathlib.Algebra.Group.Nat.Defs
import VardrMap.Lib.Text

/-!
# Textual IP addresses and networks

The address reader accepts a dotted quad without leading zeros, or eight hexadecimal
groups with at most one run of zeros elided, optionally ending in a dotted quad and
followed by a zone. Networks are an address with a prefix length, or for version 4
with a net mask or host mask, and hold every address that agrees on the network bits.
-/
namespace Lib

/-- A parsed address: its integer value, and the zone of a version 6 address. -/
inductive IpAddr where
  | v4 (n : ℕ)
  | v6 (n : ℕ) (zone : Option Text)
  deriving DecidableEq

/-- A network: the address bits under the mask, and the mask. -/
inductive IpNetwork where
  | v4 (network mask : ℕ)
  | v6 (network mask : ℕ)
  deriving DecidableEq

namespace Ip

def decimalDigits (l : Text) : ℕ := l.foldl (fun n c => 10 * n + (c.toNat - 48)) 0

/-- One number of a dotted quad. -/
def octet (l : Text) : Option ℕ :=
  if l.isEmpty || !l.all Char.isDigit || 3 < l.length then none
  else if l != ['0'] && l.head? == some '0' then none
  else if 255 < decimalDigits l then none
  else some (decimalDigits l)

/-- A dotted quad as a 32-bit number. -/
def quad (l : Text) : Option ℕ :=
  match Text.fields '.' l with
  | [a, b, c, d] => do
    return (((← octet a) * 256 + (← octet b)) * 256 + (← octet c)) * 256 + (← octet d)
  | _ => none

def hexValue (c : Char) : Option ℕ :=
  if '0' ≤ c && c ≤ '9' then some (c.toNat - 48)
  else if 'a' ≤ c && c ≤ 'f' then some (c.toNat - 87)
  else if 'A' ≤ c && c ≤ 'F' then some (c.toNat - 55)
  else none

/-- One hexadecimal group. -/
def hextet (l : Text) : Option ℕ :=
  if l.isEmpty || 4 < l.length then none
  else (l.mapM hexValue).map (List.foldl (fun n d => 16 * n + d) 0)

def hextets (ls : List Text) : Option ℕ :=
  (ls.mapM hextet).map (List.foldl (fun n d => 65536 * n + d) 0)

/-- The groups of a version 6 address; a final dotted quad stands for two groups. -/
def groups (l : Text) : Option (List Text) :=
  let parts := Text.fields ':' l
  if parts.length < 3 then none
  else
    match parts.getLast? with
    | some last =>
      if last.contains '.' then do
        let n ← quad last
        let h (k : ℕ) : Text := Nat.toDigits 16 k
        return parts.dropLast ++ [h (n / 65536 % 65536), h (n % 65536)]
      else some parts
    | none => none

/-- The positions of the empty groups strictly between the first and the last. -/
def elided (parts : List Text) : List ℕ :=
  (List.range (parts.length - 2)).map (· + 1) |>.filter fun i => (parts[i]?).getD [] == []

/-- The 128-bit value of the groups, zeros filled in where a run is elided. -/
def groupsValue (parts : List Text) : Option ℕ :=
  let n := parts.length
  match elided parts with
  | [] => if n == 8 then hextets parts else none
  | [k] =>
    let leading := parts.head? == some []
    let trailing := parts.getLast? == some []
    let hi := if leading then k - 1 else k
    let lo := if trailing then n - k - 2 else n - k - 1
    if (leading && hi != 0) || (trailing && lo != 0) || 7 < hi + lo then none
    else do
      let high ← hextets (parts.take hi)
      let low ← hextets (parts.drop (n - lo))
      return high * 65536 ^ (8 - hi) + low
  | _ => none

/-- A version 6 address without its zone. -/
def v6Value (l : Text) : Option ℕ := do
  let parts ← groups l
  if 9 < parts.length then none else groupsValue parts

def v6 (l : Text) : Option IpAddr :=
  if l.contains '/' then none
  else if l.contains '%' then
    let zone := Text.after '%' l
    if zone.isEmpty || zone.contains '%' then none
    else (v6Value (Text.before '%' l)).map fun n => .v6 n (some zone)
  else (v6Value l).map fun n => .v6 n none

/-- `ipaddress.ip_address`: version 4 is tried first. -/
def address (l : Text) : Option IpAddr :=
  match quad l with
  | some n => some (.v4 n)
  | none => v6 l

/-! ## The canonical text of a version 6 address -/

/-- The eight groups of an address. -/
def groupsOf (n : ℕ) : List ℕ := (List.range 8).map fun i => n / 2 ^ (16 * (7 - i)) % 65536

/-- The first longest run of zero groups: where it starts and its length. -/
def zeroRun (l : List ℕ) : ℕ × ℕ :=
  (List.range l.length).foldl (fun best i =>
    let n := ((l.drop i).takeWhile (· == 0)).length
    if best.2 < n then (i, n) else best) (0, 0)

def groupsText (l : List ℕ) : Text := [':'].intercalate (l.map (Nat.toDigits 16))

/-- `str(ipaddress.IPv6Address(...))`: two or more zero groups are elided once. -/
def v6Text (n : ℕ) : Text :=
  let l := groupsOf n
  let run := zeroRun l
  if run.2 ≤ 1 then groupsText l
  else groupsText (l.take run.1) ++ "::".toList ++ groupsText (l.drop (run.1 + run.2))

/-! ## Networks -/

/-- A prefix length in ASCII digits, at most `max`. -/
def prefixLength (max : ℕ) (l : Text) : Option ℕ :=
  if l.isEmpty || !l.all Char.isDigit then none
  else if max < decimalDigits l then none
  else some (decimalDigits l)

/-- The mask of the first `k` of `width` bits. -/
def maskOf (width k : ℕ) : ℕ := 2 ^ width - 2 ^ (width - k)

/-- A dotted net mask, or a dotted host mask, of contiguous bits. -/
def dottedMask (l : Text) : Option ℕ := do
  let n ← quad l
  if (List.range 33).any fun k => maskOf 32 k == n then return n
  else if (List.range 33).any fun k => maskOf 32 k == 2 ^ 32 - 1 - n then
    return 2 ^ 32 - 1 - n
  else none

def mask4 (l : Text) : Option ℕ :=
  match prefixLength 32 l with
  | some k => some (maskOf 32 k)
  | none => dottedMask l

/-- The network bits of an address; host bits are allowed and dropped. -/
def network4 (addr : Text) (mask : Option Text) : Option IpNetwork := do
  let n ← quad addr
  let m ← match mask with
    | some l => mask4 l
    | none => some (maskOf 32 32)
  return .v4 (n &&& m) m

def network6 (addr : Text) (mask : Option Text) : Option IpNetwork := do
  let n ← match v6 addr with
    | some (.v6 n _) => some n
    | _ => none
  let m ← match mask with
    | some l => (prefixLength 128 l).map (maskOf 128)
    | none => some (maskOf 128 128)
  return .v6 (n &&& m) m

/-- `ipaddress.ip_network(text, strict=False)`. -/
def network (l : Text) : Option IpNetwork :=
  match Text.fields '/' l with
  | [addr] => (network4 addr none).or (network6 addr none)
  | [addr, mask] => (network4 addr (some mask)).or (network6 addr (some mask))
  | _ => none

/-- `address in network`: addresses of the other version are never contained. -/
def contains : IpNetwork → IpAddr → Bool
  | .v4 network mask, .v4 n => n &&& mask == network
  | .v6 network mask, .v6 n _ => n &&& mask == network
  | _, _ => false

end Ip
end Lib
