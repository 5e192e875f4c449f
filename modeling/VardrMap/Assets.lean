import VardrMap.Policy
import VardrMap.Models
import Std.Data.String.ToNat

/-!
# Canonical asset identity

An observed string is reduced to a host and a port, and the two are written into one text,
the join key of the asset graph. The key is compared with what the strings name: the same
address or host name, and the same effective port.
-/
namespace VardrMap.Assets
open Lib Policy

inductive AssetType where
  | ipAddress
  | domain
  deriving DecidableEq

/-- The text of a type. -/
def AssetType.text : AssetType → Text
  | ipAddress => "ip_address".toList
  | domain => "domain".toList

structure AssetIdentity where
  assetType : AssetType
  hostname : Text
  ip : Text
  port : Option ℕ
  scheme : Text
  deriving DecidableEq

namespace AssetIdentity

def base (i : AssetIdentity) : Text := if i.ip.isEmpty then i.hostname else i.ip

/-- The label: the host, and the port unless it is missing or zero. -/
def label (i : AssetIdentity) : Text :=
  match i.port.filter fun p => p != 0 with
  | some p => i.base ++ ':' :: (Nat.repr p).toList
  | none => i.base

/-- `canonical_key`. -/
def canonicalKey (i : AssetIdentity) : Text := i.assetType.text ++ ':' :: i.label

end AssetIdentity

variable [Unicode]

/-! ## Reading an observed string -/

/-- The scheme, in lower case. -/
def schemeOf (raw : Text) : Text :=
  match Text.cut schemeSep raw with
  | some (s, _) => Unicode.lower s
  | none => []

/-- `int(digits)`. -/
def readPort (digits : Text) : Except Exn ℕ :=
  match Text.toInt? digits with
  | some n => .ok n
  | none => .error .valueError

/-- The digits written as the port of an authority, when its last part is digits. -/
def portDigits (authority : Text) : Option Text := (portText authority).filter Text.allDigits

/-- The host of an authority: inside the brackets, or before a port. -/
def hostPart (authority : Text) : Option Text :=
  match authority with
  | '[' :: rest => if rest.contains ']' then some (Text.before ']' rest) else none
  | _ => if (portDigits authority).isSome then some (Text.before ':' authority) else some authority

/-- The host text of an observed string: without its port, trailing dots and letter case. -/
def spelledHost (observed : Text) : Option Text :=
  (hostPart (hostPort (afterScheme (Text.strip observed)))).map fun host =>
    Unicode.lower (host.rdropWhile (· == '.'))

/-- The port of an observed string: the one written, else the given or the scheme's default. -/
def effectivePort (observed : Text) (default : Option ℕ) : Except Exn (Option ℕ) :=
  let raw := Text.strip observed
  match portDigits (hostPort (afterScheme raw)) with
  | some digits => (readPort digits).map some
  | none => .ok (default <|> defaultPort (schemeOf raw))

/-- `assets.parse`. -/
def parse (observed : Text) (default : Option ℕ) : Except Exn (Option AssetIdentity) :=
  if (Text.strip observed).isEmpty then .ok none
  else
    match spelledHost observed with
    | none => .ok none
    | some host => do
      let port ← effectivePort observed default
      if host.isEmpty then return none
      let scheme := schemeOf (Text.strip observed)
      if (Ip.address host).isSome then
        return some { assetType := .ipAddress, hostname := [], ip := host, port, scheme }
      if host.contains ' ' || !host.contains '.' then return none
      return some { assetType := .domain, hostname := host, ip := [], port, scheme }

/-- What an accepted string gives: its host text as an address or as a name, and its port. -/
theorem parse_eq_some {observed : Text} {default : Option ℕ} {i : AssetIdentity}
    (h : parse observed default = .ok (some i)) :
    spelledHost observed = some i.base ∧ effectivePort observed default = .ok i.port ∧
      (i.assetType = .ipAddress ↔ (Ip.address i.base).isSome = true) := by
  unfold parse at h
  split at h
  · simp at h
  split at h
  · simp at h
  rename_i host hhost
  obtain ⟨port, hport, h⟩ := bind_eq_ok h
  split at h
  · simp [pure, Except.pure] at h
  rename_i hne
  split at h
  · rename_i haddr
    obtain rfl : _ = i := by simpa [pure, Except.pure] using h
    simp [AssetIdentity.base, hne, hhost, hport, haddr]
  rename_i haddr
  split at h
  · simp [pure, Except.pure] at h
  obtain rfl : _ = i := by simpa [pure, Except.pure] using h
  simpa [AssetIdentity.base, hhost, hport] using haddr

/-- The port of an observed string, when digits are written for it, has a value. -/
def PortReadable (observed : Text) : Prop :=
  ∀ digits ∈ portDigits (hostPort (afterScheme (Text.strip observed))),
    (Text.toInt? digits).isSome = true

/-- Nothing but a port without a value makes the reading raise. -/
theorem parse_isOk_iff (observed : Text) (default : Option ℕ) :
    (parse observed default).isOk = true ↔ PortReadable observed := by
  have hport : (effectivePort observed default).isOk = true ↔ PortReadable observed := by
    unfold effectivePort PortReadable readPort
    simp only
    cases portDigits (hostPort (afterScheme (Text.strip observed))) with
    | none => simp [Except.isOk, Except.toBool]
    | some digits => cases htoInt : Text.toInt? digits <;> simp [Except.map, Except.isOk,
        Except.toBool, htoInt]
  rw [← hport]
  unfold parse
  split
  · -- an empty string has no port
    rename_i hempty
    have hdigits : portDigits (hostPort (afterScheme (Text.strip observed))) = none := by
      rw [List.isEmpty_iff.mp hempty]
      rfl
    simp [effectivePort, hdigits, Except.isOk, Except.toBool]
  split
  · rename_i hhost
    have hdigits : portDigits (hostPort (afterScheme (Text.strip observed))) = none := by
      have hpart := Option.map_eq_none_iff.mp hhost
      revert hpart
      generalize hostPort (afterScheme (Text.strip observed)) = authority
      unfold hostPart
      split
      · split
        · simp
        · rename_i rest hclose
          have hclose : ']' ∉ rest := by simpa using hclose
          simp [portDigits, portText, hclose]
      · split <;> simp
    simp [effectivePort, hdigits, Except.isOk, Except.toBool]
  · cases effectivePort observed default with
    | error e => rfl
    | ok port =>
      simp only [bind, Except.bind]
      repeat' split
      all_goals rfl

/-! ## What a string names -/

/-- Two host texts name one host: the same address, or the same name. -/
def SameHost (a b : Text) : Prop :=
  match Ip.address a, Ip.address b with
  | some x, some y => x = y
  | none, none => a = b
  | _, _ => False

omit [Unicode] in
theorem SameHost.refl (a : Text) : SameHost a a := by
  unfold SameHost
  cases Ip.address a <;> rfl

/-- Two observed strings name one asset: one host, and the same effective port. -/
def NameOne (a b : Text) : Prop :=
  ∃ host ∈ spelledHost a, ∃ host' ∈ spelledHost b, ∃ port,
    SameHost host host' ∧ effectivePort a none = .ok port ∧ effectivePort b none = .ok port

/-- The same address and the same effective port, the address in two spellings. -/
def Respelled (a b : Text) : Prop :=
  ∃ host ∈ spelledHost a, ∃ host' ∈ spelledHost b, ∃ port address,
    effectivePort a none = .ok port ∧ effectivePort b none = .ok port ∧
      Ip.address host = some address ∧ Ip.address host' = some address ∧ host ≠ host'

/-- A port is written into the key unless it is missing or zero. -/
def keyedPort (port : Option ℕ) : Option ℕ := port.filter fun p => p != 0

/-- The same host text, once with port zero and once without a port. -/
def ZeroPort (a b : Text) : Prop :=
  ∃ host ∈ spelledHost a, host ∈ spelledHost b ∧ ∃ port port',
    effectivePort a none = .ok port ∧ effectivePort b none = .ok port' ∧
      keyedPort port = none ∧ keyedPort port' = none ∧ port ≠ port'

/-- The host text of the second string is that of the first with its port. -/
def Swallows (a b : Text) : Prop :=
  ∃ host ∈ spelledHost a, ∃ host' ∈ spelledHost b, ∃ port port' p,
    effectivePort a none = .ok port ∧ effectivePort b none = .ok port' ∧
      keyedPort port = some p ∧ keyedPort port' = none ∧
        (Ip.address host).isSome = (Ip.address host').isSome ∧
          host' = host ++ ':' :: (Nat.repr p).toList

/-! ## The key and the names -/

omit [Unicode] in
theorem colon_notMem_repr (p : ℕ) : ':' ∉ (Nat.repr p).toList := by
  intro h
  have hdigit : Char.isDigit ':' = true :=
    Nat.isDigit_of_mem_toDigits (b := 10) (by decide) (by decide) (by simpa using h)
  exact absurd hdigit (by decide)

omit [Unicode] in
/-- The last colon ends the host. -/
theorem append_port_inj {a b : Text} {p q : ℕ} :
    a ++ ':' :: (Nat.repr p).toList = b ++ ':' :: (Nat.repr q).toList ↔ a = b ∧ p = q := by
  refine ⟨fun h => ?_, fun ⟨ha, hp⟩ => by rw [ha, hp]⟩
  have hlast := congrArg (Text.afterLast ':') h
  rw [Text.afterLast_append_cons a (colon_notMem_repr p),
    Text.afterLast_append_cons b (colon_notMem_repr q)] at hlast
  have hp : p = q := Nat.repr_inj.mp (String.toList_injective hlast)
  subst hp
  exact ⟨List.append_cancel_right h, rfl⟩

omit [Unicode] in
/-- Only missing ports and port zero are written alike. -/
theorem keyedPort_eq_none {p q : Option ℕ} (h : keyedPort p = keyedPort q) (hne : p ≠ q) :
    keyedPort p = none := by
  cases hp : keyedPort p with
  | none => rfl
  | some n =>
    have hq := h.symm.trans hp
    exact absurd ((Option.filter_eq_some_iff.mp hp).1.trans
      (Option.filter_eq_some_iff.mp hq).1.symm) hne

omit [Unicode] in
/-- Labels are equal when hosts and ports are, or when one host swallows the other's port. -/
theorem label_inj {i j : AssetIdentity} : i.label = j.label ↔
    (i.base = j.base ∧ keyedPort i.port = keyedPort j.port) ∨
    (∃ p, keyedPort i.port = some p ∧ keyedPort j.port = none ∧
      j.base = i.base ++ ':' :: (Nat.repr p).toList) ∨
    ∃ p, keyedPort j.port = some p ∧ keyedPort i.port = none ∧
      i.base = j.base ++ ':' :: (Nat.repr p).toList := by
  unfold AssetIdentity.label
  change (match keyedPort i.port with | some p => _ | none => _) =
    (match keyedPort j.port with | some p => _ | none => _) ↔ _
  cases keyedPort i.port with
  | none =>
    cases keyedPort j.port with
    | none => simp
    | some q => simp
  | some p =>
    cases keyedPort j.port with
    | none => simp [eq_comm]
    | some q => simpa using append_port_inj

omit [Unicode] in
/-- A type's text does not begin like the other's. -/
theorem canonicalKey_inj {i j : AssetIdentity} :
    i.canonicalKey = j.canonicalKey ↔ i.assetType = j.assetType ∧ i.label = j.label := by
  have hhead : ∀ t u : AssetType, ∀ a b : Text, t.text ++ a = u.text ++ b → t = u := by
    intro t u a b h
    cases t <;> cases u
    · rfl
    · exact absurd (List.cons.inj h).1 (by decide)
    · exact absurd (List.cons.inj h).1 (by decide)
    · rfl
  unfold AssetIdentity.canonicalKey
  constructor
  · intro h
    have ht := hhead _ _ _ _ h
    rw [ht] at h
    exact ⟨ht, (List.cons.inj (List.append_cancel_left h)).2⟩
  · rintro ⟨ht, hl⟩
    rw [ht, hl]

/-- A node of the graph. -/
structure Asset where
  id : String
  programId : String
  identity : AssetIdentity
  source : String
  confidence : String
  firstSeenAt : Instant
  lastSeenAt : Instant
  deriving DecidableEq

/-- An identity without its port. -/
def AssetIdentity.hostLevel (i : AssetIdentity) : AssetIdentity := { i with port := none }

/-- `upsert`: the node of an observed string, found or added, and seen now. Nothing is linked to
a string that cannot be classified. -/
def upsert (assets : List Asset) (programId : String) (observed : Text) (source confidence : String)
    (default : Option ℕ) (hostLevel : Bool) (now : Instant) (newId : String) :
    Except Exn (List Asset × Option String) := do
  match ← parse observed default with
  | none => return (assets, none)
  | some identity =>
    let identity := if hostLevel then identity.hostLevel else identity
    let same (a : Asset) : Bool :=
      a.programId == programId && a.identity.canonicalKey == identity.canonicalKey
    match assets.find? same with
    | some asset =>
      return (assets.map fun a => if a.id == asset.id then { a with lastSeenAt := now } else a,
        some asset.id)
    | none => return (assets ++ [{
        id := newId, programId, identity, source, confidence, firstSeenAt := now
        lastSeenAt := now }], some newId)

/-- A string is linked unless reading its port raises. -/
theorem upsert_isOk_iff (assets : List Asset) (programId : String) (observed : Text)
    (source confidence : String) (default : Option ℕ) (hostLevel : Bool) (now : Instant)
    (newId : String) :
    (upsert assets programId observed source confidence default hostLevel now newId).isOk =
      (parse observed default).isOk := by
  unfold upsert
  cases parse observed default with
  | error e => rfl
  | ok i =>
    cases i with
    | none => rfl
    | some i =>
      simp only [bind, Except.bind]
      split <;> rfl

end VardrMap.Assets
