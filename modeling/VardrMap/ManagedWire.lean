import Mathlib.Algebra.Group.Int.Defs
import VardrMap.Authority

/-!
# The signed wire boundary

An approval is a signed envelope around an approval document. Map checks the envelope
against its provisioned operators and against the context it has just projected, at a
trusted time, and signs contract envelopes of its own. Decoding and the signature scheme
belong to the runtime.
-/
namespace VardrMap
open Lib

namespace Wire

/-- `require`. -/
def require (condition : Bool) (reason : String) : Except Refusal Unit :=
  ensure condition (.wire reason)

/-- `canonical`: the text of a document, refused when it has none. -/
def canonical (value : Json) : Except Refusal Text :=
  match value.dumps false with
  | .ok text => .ok text
  | .error _ => .error (.wire "invalid_document")

/-- `digest`. -/
def digest (value : Json) : Except Refusal String :=
  (canonical value).map Sha256.ofText

/-- `fields`: a dictionary with exactly these keys. -/
def fields (value : Json) (names : List String) : Except Refusal Unit :=
  match value with
  | .obj fs => require ((fs.map Prod.fst).all names.contains && names.all value.hasField)
      "invalid_fields"
  | _ => .error (.wire "invalid_fields")

def identifierChar (c : Char) : Bool :=
  c.isAlphanum || c == '_' || c == '.' || c == ':' || c == '-'

/-- `identifier`. -/
def identifier (value : Json) : Except Refusal String :=
  match value with
  | .str s =>
    if 1 ≤ s.length && s.length ≤ 128 && s.toList.all identifierChar then .ok s
    else .error (.wire "invalid_identifier")
  | _ => .error (.wire "invalid_identifier")

/-- `integer`: an integer, not a boolean, between the bounds. -/
def integer (value : Json) (minimum maximum : ℤ) : Except Refusal ℤ :=
  match value.int? with
  | some n => if minimum ≤ n && n ≤ maximum then .ok n else .error (.wire "invalid_integer")
  | none => .error (.wire "invalid_integer")

/-- `2**53 - 1`. -/
def maxInteger : ℤ := 2 ^ 53 - 1

variable [Unicode]

/-- `timestamp`. -/
def timestamp (value : Json) : Except Refusal DateTime :=
  match value with
  | .str s =>
    match DateTime.timestamp s.toList with
    | some t => .ok t
    | none => .error (.wire "invalid_time")
  | _ => .error (.wire "invalid_time")

/-- `stamp`: only an aware time is trusted. -/
def stamp (value : DateTime) : Except Refusal Text := do
  require value.aware "trusted_clock_required"
  raise value.stamp

end Wire

/-- A provisioned approver. -/
structure OperatorAnchor where
  issuerId : String
  keyId : String
  approverId : String
  publicKey : String
  revoked : Bool

/-- A contract signer with its trusted operators. Payloads are decoded, signatures verified
and contract documents encoded and signed by the runtime. -/
structure ContractWire where
  issuerId : String
  keyId : String
  operators : List OperatorAnchor
  decode : Json → Except Refusal Json
  verify : (publicKey : String) → (payload signature : Json) → Bool
  encode : Text → String
  sign : Text → String

namespace ContractWire

variable [Unicode]
open Wire

/-- The anchor that an issuer names. -/
def anchor? (wire : ContractWire) (issuerId keyId : Json) : Option OperatorAnchor :=
  wire.operators.find? fun a => Json.str a.issuerId == issuerId && Json.str a.keyId == keyId

/-- The payload of an approval envelope, before its context is compared. -/
def openApproval (wire : ContractWire) (envelope : Json) (owner : String) :
    Except Refusal Json := do
  fields envelope ["format", "purpose", "payload", "signature"]
  require (envelope.field "format" == .str "vardr.authorization-envelope/1" &&
    envelope.field "purpose" == .str "approval") "envelope_version_or_purpose"
  let payload ← wire.decode (envelope.field "payload")
  fields payload
    ["schema", "issuer", "origin", "approval_id", "approver_id", "approved_at", "context"]
  let issuer := payload.field "issuer"
  fields issuer ["id", "key_id"]
  let some anchor := (wire.anchor? (issuer.field "id") (issuer.field "key_id")).filter
      fun a => !a.revoked
    | .error (.wire "operator_not_trusted")
  require (payload.field "schema" == .str "vardr.execution-approval/1" &&
    payload.field "origin" == .str "map") "approval_schema_or_origin"
  require (payload.field "approver_id" == .str anchor.approverId && anchor.approverId == owner)
    "operator_owner_mismatch"
  let _ ← identifier (payload.field "approval_id")
  require (wire.verify anchor.publicKey (envelope.field "payload") (envelope.field "signature"))
    "invalid_signature"
  return payload

/-- The moment is between two times of the context: closed below, open above. -/
def within (context : Json) (start stop : String) (now : DateTime) : Except Refusal Bool := do
  let start ← timestamp (← raise (context.item start))
  if now.instant < start.instant then return false
  let stop ← timestamp (← raise (context.item stop))
  return now.instant < stop.instant

/-- The approval has been given, and the moment is in its validity and its testing
window. -/
def timely (payload context : Json) (now : DateTime) : Except Refusal Bool := do
  let approvedAt ← timestamp (payload.field "approved_at")
  if now.instant < approvedAt.instant then return false
  let valid ← within context "not_before" "expires_at" now
  if !valid then return false
  within context "testing_start" "testing_end" now

/-- `approval`: the payload of an approval of this context by its owner, at a moment. -/
def approval (wire : ContractWire) (envelope context : Json) (owner : String) (now : DateTime) :
    Except Refusal Json := do
  let payload ← wire.openApproval envelope owner
  let signed ← canonical (payload.field "context")
  let current ← canonical context
  require (signed == current) "approval_context_changed"
  let control ← raise (context.get "control")
  require (control == .str "managed_online" && context.field "mode" == .str "strict" &&
    context.field "exceptions" == .arr []) "unsupported_managed_mode"
  let _ ← stamp now
  let inTime ← timely payload context now
  require inTime "approval_expired_or_not_yet_valid"
  let maxExecutions ← raise (context.item "max_executions")
  let _ ← integer maxExecutions 1 1000
  return payload

/-- What identifies an attempt in a contract. -/
structure Attempt where
  contractId : String
  attemptId : String
  fence : ℤ
  ordinal : ℕ

/-- The document of a contract. -/
def contractPayload (wire : ContractWire) (approval receipt context : Json) (now : DateTime)
    (attempt : Attempt) : Except Refusal Json := do
  let contractId ← identifier (.str attempt.contractId)
  let approvalSha256 ← Wire.digest approval
  let maxExecutions ← raise (context.item "max_executions")
  let ordinal ← integer (.int attempt.ordinal) 1 (maxExecutions.int?.getD 0)
  let planSha256 ← raise (context.item "plan_sha256")
  let runnerId ← identifier (← raise (context.item "runner_id"))
  let engagementId ← identifier (← raise (context.item "engagement_id"))
  let jobId ← identifier (← raise (context.item "job_id"))
  let attemptId ← identifier (.str attempt.attemptId)
  let fence ← integer (.int attempt.fence) 1 maxInteger
  let issuedAt ← stamp now
  let expiresAt ← raise (context.item "expires_at")
  let revision ← integer (← raise (context.item "authority_revision")) 0 maxInteger
  return .obj [
    ("schema", .str "vardr.authorization/1"),
    ("issuer", .obj [("id", .str wire.issuerId), ("key_id", .str wire.keyId)]),
    ("origin", .str "map"),
    ("contract_id", .str contractId),
    ("approval_sha256", .str approvalSha256),
    ("approval_id", receipt.field "approval_id"),
    ("execution_index", .int ordinal),
    ("plan_sha256", planSha256),
    ("runner_id", .str runnerId),
    ("engagement_id", .str engagementId),
    ("job_id", .str jobId),
    ("attempt_id", .str attemptId),
    ("fence", .int fence),
    ("issued_at", .str (String.ofList issuedAt)),
    ("expires_at", expiresAt),
    ("authority_revision", .int revision)]

/-- `issue`: the signed contract envelope of an attempt under an approval. -/
def issue (wire : ContractWire) (approval context : Json) (owner : String) (now : DateTime)
    (attempt : Attempt) : Except Refusal Json := do
  let receipt ← wire.approval approval context owner now
  let payload ← wire.contractPayload approval receipt context now attempt
  let data ← canonical payload
  require (data.length ≤ 256 * 1024) "document_size"
  return .obj [
    ("format", .str "vardr.authorization-envelope/1"),
    ("purpose", .str "contract"),
    ("payload", .str (wire.encode data)),
    ("signature", .str (wire.sign data))]

end ContractWire

/-! ## What an accepted approval establishes -/

theorem Wire.require_eq_ok {condition : Bool} {reason : String} {u : Unit}
    (h : Wire.require condition reason = .ok u) : condition = true := ensure_eq_ok h

variable [Unicode]

theorem Wire.timestamp_eq_ok {value : Json} {t : DateTime} (h : Wire.timestamp value = .ok t) :
    ∃ s, value = .str s ∧ DateTime.timestamp s.toList = some t := by
  unfold Wire.timestamp at h
  split at h
  · rename_i s
    split at h
    · rename_i u hu
      obtain rfl := Except.ok.inj h
      exact ⟨s, rfl, hu⟩
    · simp at h
  · simp at h

/-- A time of a context, read back from its text. -/
def ReadsTime (context : Json) (name : String) (t : DateTime) : Prop :=
  ∃ s, context.field name = .str s ∧ DateTime.timestamp s.toList = some t

omit [Unicode] in
theorem Json.item_eq_ok {j v : Json} {k : String} (h : j.item k = .ok v) : j.field k = v := by
  cases j with
  | obj fs =>
    simp only [Json.item] at h
    cases hl : fs.lookup k with
    | none => simp [hl] at h
    | some w => simpa [Json.field, hl] using h
  | _ => simp [Json.item] at h

namespace ContractWire

theorem within_eq_true {context : Json} {start stop : String} {now : DateTime}
    (h : within context start stop now = .ok true) :
    ∃ a b, ReadsTime context start a ∧ ReadsTime context stop b ∧
      a.instant ≤ now.instant ∧ now.instant < b.instant := by
  unfold within at h
  obtain ⟨first, hfirst, h⟩ := bind_eq_ok h
  obtain ⟨a, ha, h⟩ := bind_eq_ok h
  split at h
  · simp [pure, Except.pure] at h
  rename_i hle
  obtain ⟨last, hlast, h⟩ := bind_eq_ok h
  obtain ⟨b, hb, h⟩ := bind_eq_ok h
  have hlt := Except.ok.inj h
  obtain ⟨s, rfl, hs⟩ := Wire.timestamp_eq_ok ha
  obtain ⟨s', rfl, hs'⟩ := Wire.timestamp_eq_ok hb
  refine ⟨a, b, ⟨s, Json.item_eq_ok (raise_eq_ok hfirst), hs⟩,
    ⟨s', Json.item_eq_ok (raise_eq_ok hlast), hs'⟩, by omega, by simpa using hlt⟩

/-- An accepted approval is checked at an aware moment inside the validity and the testing
window of its context. -/
theorem approval_eq_ok {wire : ContractWire} {envelope context payload : Json}
    {owner : String} {now : DateTime} (h : wire.approval envelope context owner now = .ok payload) :
    now.aware = true ∧ within context "not_before" "expires_at" now = .ok true ∧
      within context "testing_start" "testing_end" now = .ok true := by
  unfold approval at h
  obtain ⟨payload', -, h⟩ := bind_eq_ok h
  obtain ⟨signed, -, h⟩ := bind_eq_ok h
  obtain ⟨current, -, h⟩ := bind_eq_ok h
  obtain ⟨-, -, h⟩ := bind_eq_ok h
  obtain ⟨control, -, h⟩ := bind_eq_ok h
  obtain ⟨-, -, h⟩ := bind_eq_ok h
  obtain ⟨text, hstamp, h⟩ := bind_eq_ok h
  obtain ⟨inTime, htimely, h⟩ := bind_eq_ok h
  obtain ⟨_, hrequire, h⟩ := bind_eq_ok h
  obtain ⟨_, haware, -⟩ := bind_eq_ok hstamp
  obtain rfl := Wire.require_eq_ok hrequire
  refine ⟨Wire.require_eq_ok haware, ?_⟩
  unfold timely at htimely
  obtain ⟨approvedAt, -, htimely⟩ := bind_eq_ok htimely
  split at htimely
  · simp [pure, Except.pure] at htimely
  obtain ⟨valid, hvalid, htimely⟩ := bind_eq_ok htimely
  cases valid with
  | false => simp [pure, Except.pure] at htimely
  | true => exact ⟨hvalid, by simpa using htimely⟩

end ContractWire

end VardrMap
