import Mathlib.Data.String.Basic
import VardrMap.AssessmentEvidence
import VardrMap.Authority
import VardrMap.Lib.Sorting

/-!
# Assessing a run against its case

`assess` turns the executions, preflight rows and semantic rows that a gate reports into
one state per declared identity and one status for the run. Documents are decoded JSON of
any shape; whatever the code cannot read raises.
-/
namespace VardrMap
open Lib

/-! ## Preflight -/

inductive PreflightStatus where
  | missing
  | inconclusive
  | passed
  | failed
  deriving DecidableEq

/-- The preflight of one identity. -/
structure PreflightItem where
  identityId : Json
  status : PreflightStatus
  reason : Json
  statusCode : Json
  deriving DecidableEq

inductive SessionStatus where
  | notConfigured
  | passed
  | failed
  | inconclusive
  deriving DecidableEq

/-- The preflight of a run. -/
structure Session where
  status : SessionStatus
  identities : List PreflightItem
  unexpected : ℕ
  deriving DecidableEq

/-- `declared[key] = value`: an equal key keeps its place. -/
def setKey (declared : List (Json × Json)) (key value : Json) : List (Json × Json) :=
  if declared.any fun p => p.1.pyEq key then
    declared.map fun p => if p.1.pyEq key then (p.1, value) else p
  else declared ++ [(key, value)]

/-- The preflights that identities declare, one by one. -/
def declaredPreflights : List Json → List (Json × Json) → Except Exn (List (Json × Json))
  | [], declared => .ok declared
  | i :: is, declared => do
    let preflight ← i.get "preflight"
    if preflight == .null then declaredPreflights is declared
    else do
      let key ← (← i.item "id").asKey
      declaredPreflights is (setKey declared key preflight)

/-- The preflight of the reader of a write oracle is declared like an identity's. -/
def withReaderPreflight (reader : Json) (declared : List (Json × Json)) :
    Except Exn (List (Json × Json)) :=
  if reader.field "preflight" == .null then .ok declared
  else (reader.item "id" >>= Json.asKey).map fun key =>
    setKey declared key (reader.field "preflight")

variable [Unicode]

/-- `str(row.get("identity_id") or "")`. -/
def reportKey (row : Json) : Except Exn String := do
  return (← row.get "identity_id").toStrOr ""

/-- The rows with their keys. -/
def reportKeys (rows : List Json) : Except Exn (List (String × Json)) :=
  rows.mapM fun row => do return (← reportKey row, row)

/-- The rows reported under a key. -/
def reportedUnder (reported : List (String × Json)) (identity : Json) : List Json :=
  (reported.filter fun p => identity == .str p.1).map Prod.snd

def failedReasons : List String :=
  ["credential_rejected", "identity_mismatch", "unexpected_status", "execution_error"]

/-- The row reports the expected status of a verified identity. -/
def preflightPasses (config row : Json) : Except Exn Bool :=
  let code := row.field "status_code"
  if row.field "status" == .str "passed" && row.field "reason" == .str "identity_verified" &&
      code.int?.isSome then
    (config.item "expected_status").map code.pyEq
  else .ok false

/-- The row reports a failure for a known reason. -/
def preflightFails (row : Json) : Except Exn Bool :=
  if row.field "status" == .str "failed" then
    (row.field "reason").asKey.map fun reason => failedReasons.any fun r => reason == .str r
  else .ok false

/-- Status and reason of one preflight row against its configuration. -/
def preflightRow (config row : Json) : Except Exn (PreflightStatus × Json) := do
  if ← preflightPasses config row then return (.passed, .str "identity_verified")
  if ← preflightFails row then return (.failed, row.field "reason")
  return (.inconclusive, .str "preflight_inconsistent")

/-- Status, reason and code of a declared identity from its preflight rows. -/
def preflightRows (config : Json) (rows : List Json) :
    Except Exn (PreflightStatus × Json × Json) :=
  match rows with
  | [] => .ok (.missing, .str "preflight_missing", .null)
  | [row] => (preflightRow config row).map fun p => (p.1, p.2, row.field "status_code")
  | _ => .ok (.inconclusive, .str "duplicate_preflight", .null)

/-- The preflight of one declared identity. -/
def preflightItem (reported : List (String × Json)) (verified : Bool) (declared : Json × Json) :
    Except Exn PreflightItem := do
  let (status, reason, code) ← preflightRows declared.2 (reportedUnder reported declared.1)
  if verified then return ⟨declared.1, status, reason, code⟩
  else return ⟨declared.1, .inconclusive, .str "case_snapshot_unverified", code⟩

def sessionStatus (declaredAny : Bool) (identities : List PreflightItem) (unexpected : ℕ) :
    SessionStatus :=
  if unexpected != 0 then .inconclusive
  else if !declaredAny then .notConfigured
  else if identities.all fun i => i.status == .passed then .passed
  else if identities.any fun i => i.status == .failed then .failed
  else .inconclusive

/-- `assess_preflight`. -/
def assessPreflight (spec : Json) (rows : List Json) (verified : Bool) : Except Exn Session := do
  let identities ← (← spec.getD "identities" (.arr [])).iter
  let declared ← withReaderPreflight (readerOf spec) (← declaredPreflights identities [])
  let reported ← reportKeys rows
  let items ← declared.mapM (preflightItem reported verified)
  let unexpected := (reported.filter fun p => !declared.any fun d => d.1 == .str p.1).length
  return ⟨sessionStatus (!declared.isEmpty) items unexpected, items, unexpected⟩

/-! ## Executions -/

/-- Membership in a list, a dictionary or a text. -/
def memberOf (code : ℤ) (value : Json) : Except Exn Bool :=
  match value with
  | .arr xs => .ok (xs.any fun x => (Json.int code).pyEq x)
  | .obj _ => .ok false
  | _ => .error .typeError

/-- The execution reports a denial that its status code bears out. -/
def reportsDeny (spec : Json) (outcome : String) (status : ℤ) : Except Exn Bool :=
  if outcome != "deny" then .ok false
  else if status == 401 || status == 403 then .ok true
  else do
    if ← memberOf status (← spec.getD "deny_status" (.arr [])) then return true
    return success status && (spec.field "deny_when").truthy

/-- No denial without a status code. -/
def reportedDeny (spec row : Json) (outcome : String) : Except Exn Bool :=
  match httpStatus? row with
  | some status => reportsDeny spec outcome status
  | none => .ok false

/-- State and reason of an identity from its only execution. -/
def executionState (spec decision row : Json) (outcome : String) :
    Except Exn (IdentityState × String) := do
  let allow := (httpStatus? row).any success && outcome == "allow"
  let deny ← reportedDeny spec row outcome
  if !errorFree row then return (.inconclusive, "execution_error")
  if !(allow || deny) then return (.inconclusive, "ambiguous_response")
  if decision == .str "allow" && !allow then return (.inconclusive, "legitimate_baseline_denied")
  return (.evaluated, "reported_allow_or_deny")

/-- The expected decisions of a case with the identities they are about. -/
def expectedDecisions (spec : Json) : Except Exn (List (Json × Json)) := do
  let expectations ← (← spec.getD "expected_access" (.arr [])).iter
  expectations.mapM fun item => do
    return (← (← item.item "identity_id").asKey, ← item.item "decision")

/-- The decisions that are expected for one identity. -/
def decisionsFor (expected : List (Json × Json)) (identity : Json) : List Json :=
  (expected.filter fun p => p.1.pyEq identity).map Prod.snd

/-- The only decision, `"unknown"` when there is not exactly one. -/
def soleDecision (decisions : List Json) : Json :=
  match decisions with
  | [d] => d
  | _ => .str "unknown"

/-- The outcome of the only execution, `"unknown"` when there is not exactly one. -/
def soleOutcome (rows : List Json) : String :=
  match rows with
  | [row] => (row.field "observed_outcome").toStrOr "unknown"
  | _ => "unknown"

/-- State and reason of an identity from its executions. -/
def rowsState (spec decision : Json) (rows : List Json) : Except Exn (IdentityState × String) :=
  if decision == .str "skip" || decision == .str "unknown" then
    .ok (.skipped, "no_reviewed_expectation")
  else
    match rows with
    | [] => .ok (.missing, "execution_missing")
    | [row] => executionState spec decision row (soleOutcome [row])
    | _ => .ok (.inconclusive, "duplicate_execution")

/-- An identity as its executions alone decide it. -/
def assessIdentity (spec : Json) (expected : List (Json × Json)) (reported : List (String × Json))
    (identity : Json) : Except Exn IdentityItem := do
  let identityId ← (← identity.item "id").asKey
  let decision ← (soleDecision (decisionsFor expected identityId)).asKey
  let rows := reportedUnder reported identityId
  let (state, reason) ← rowsState spec decision rows
  return {
    identityId
    expectedDecision := decision
    observedOutcome := soleOutcome rows
    state
    reason
    reportedDecision := none
    source := none
    credentialStatus := none
    writeVerification := none
    matchedAssertions := none
    verification := none }

/-! ## Credentials -/

/-- The declared identity with an id, an empty dictionary when there is none. -/
def declaredIdentity (identities : List Json) (identityId : Json) : Except Exn Json :=
  match identities with
  | [] => .ok (.obj [])
  | i :: is => do
    if (← i.item "id").pyEq identityId then return i
    declaredIdentity is identityId

/-- Requests of this credential carry a secret. -/
def sendsCredentials (credential : Json) : Except Exn Bool := do
  let type ← (← credential.get "type").asKey
  return type == .str "bearer" || type == .str "api_key_header" ||
    (type == .str "static_header" && (credential.field "header").truthy)

/-- `"preflight_passed"` or `"preflight_failed"` when the identity has a preflight. -/
def checkedStatus (session : Session) (identityId : Json) (fallback : String) : String :=
  match session.identities.find? fun p => p.identityId.pyEq identityId with
  | some p => if p.status == .passed then "preflight_passed" else "preflight_failed"
  | none => fallback

/-- The only execution was answered with 401. -/
def rejected401 (rows : List Json) : Bool :=
  match rows with
  | [row] => (row.field "status_code").pyEq (.int 401)
  | _ => false

/-- The credential status of the reader of a verified write. -/
def readerStatus (spec : Json) (session : Session) : Except Exn String := do
  let oracle := (spec.field "write_verification").orElse (.obj [])
  let reader := (← oracle.get "identity").orElse (.obj [])
  let credential := (← reader.get "credential").orElse (.obj [])
  let type ← credential.get "type"
  let anonymous := type == .str "static_header" && !(credential.field "header").truthy
  return checkedStatus session (reader.field "id")
    (if anonymous then "anonymous_identity" else "not_checked")

/-- The verification with the status of its reader. -/
def withReader (v : Verification) (verified : Bool) (reader : String) : Verification :=
  { v with readerCredentialStatus := if verified then reader else "not_recorded" }

def checkedVerification (spec : Json) (session : Session) (verified : Bool) :
    Option Verification → Except Exn (Option Verification)
  | none => .ok none
  | some v => (readerStatus spec session).map (some ∘ withReader v verified)

/-- What the credential step decides: the status of the credential, and whether a denial
only shows that the credential was rejected. -/
def credentialItem (spec : Json) (identities : List Json) (reported : List (String × Json))
    (session : Session) (verified : Bool) (item : IdentityItem) : Except Exn IdentityItem := do
  let declared ← declaredIdentity identities item.identityId
  let credential := (← declared.get "credential").orElse (.obj [])
  let rows := reportedUnder reported item.identityId
  let sends ← sendsCredentials credential
  let checked := checkedStatus session item.identityId
    (if sends then "not_checked" else "anonymous_identity")
  let status :=
    if sends && rejected401 rows then
      if checked == "preflight_passed" then "preflight_passed_resource_401"
      else "resource_401_unverified"
    else checked
  let verification ← checkedVerification spec session verified item.verification
  let item := { item with
    credentialStatus := some (if verified then status else "not_recorded"), verification }
  if item.expectedDecision == .str "deny" && rejected401 rows && sends &&
      !(spec.field "unauthorized_is_denial").truthy && item.reportedDecision != some "allowed" then
    return item.update .inconclusive "credential_rejected"
  return item

/-! ## The run -/

/-- Nothing is evaluated against an unverified snapshot. -/
def unverifiedStep (verified : Bool) (item : IdentityItem) : IdentityItem :=
  if !verified && item.state == .evaluated then
    item.update .inconclusive "case_snapshot_unverified"
  else item

/-- Nothing is evaluated without an established session. -/
def sessionStep (session : Session) (item : IdentityItem) : IdentityItem :=
  if session.status != .passed && session.status != .notConfigured && item.state != .skipped then
    item.update .inconclusive "identity_preflight_not_established"
  else item

/-- Nothing is evaluated without a legitimate baseline. -/
def baselineStep (baseline : Bool) (item : IdentityItem) : IdentityItem :=
  if !baseline && item.state == .evaluated then
    item.update .inconclusive "legitimate_baseline_missing"
  else item

/-- An identity that is expected to be allowed and was evaluated. -/
def isBaseline (item : IdentityItem) : Bool :=
  item.expectedDecision == .str "allow" && item.state == .evaluated

inductive RunStatus where
  | conclusive
  | partial_
  | inconclusive
  deriving DecidableEq

/-- The assessment of a run. -/
structure Assessment where
  status : RunStatus
  evaluated : ℕ
  inconclusive : ℕ
  missing : ℕ
  skipped : ℕ
  unexpected : ℕ
  baselineValid : Bool
  candidateFindings : ℕ
  identities : List IdentityItem
  reasons : List String
  caseHash : Option String
  caseSnapshotVerified : Bool
  preflight : Session

def stateCount (identities : List IdentityItem) (state : IdentityState) : ℕ :=
  identities.countP fun i => i.state == state

/-- The status of a run from its items. -/
def runStatus (items : List IdentityItem) (unexpected : ℕ) : RunStatus :=
  if !items.isEmpty && stateCount items .evaluated == items.length && unexpected == 0 then
    .conclusive
  else if stateCount items .evaluated != 0 then .partial_
  else .inconclusive

/-- Every reason why a run is not conclusive. -/
def runReasons (spec : Json) (verified baseline : Bool) (items : List IdentityItem)
    (unexpected : ℕ) : List String :=
  sortedSet ((items.filter fun i => i.state != .evaluated).map IdentityItem.reason ++
    (if baseline then [] else ["legitimate_baseline_missing"]) ++
    (if unexpected == 0 then [] else ["unexpected_identity"]) ++
    (if spec.truthy then [] else ["case_snapshot_missing"]) ++
    (if verified then [] else ["case_snapshot_unverified"]))

/-- Whether any legitimate baseline was evaluated against a verified snapshot. -/
def hasBaseline (verified : Bool) (items : List IdentityItem) : Bool :=
  verified && items.any isBaseline

/-- The identities of a run before the baseline is required. -/
def assessItems (spec : Json) (executions : List Json) (verified : Bool) (session : Session)
    (reported : List (String × Json)) (semantic : List Json) : Except Exn (List IdentityItem) := do
  let expected ← expectedDecisions spec
  let identities ← (← spec.getD "identities" (.arr [])).iter
  let items ← identities.mapM (assessIdentity spec expected reported)
  let rows ← semantic.mapM safeSemanticRow
  let items ← items.mapM (applySemantics spec executions rows verified)
  let items ← items.mapM (credentialItem spec identities reported session verified)
  return items.map fun i => sessionStep session (unverifiedStep verified i)

/-- The hash of the snapshot, if there is one. -/
def snapshotHash (spec : Json) : Except Exn (Option String) :=
  if spec.truthy then (caseHash spec).map some else .ok none

/-- `assess`. -/
def assess (spec : Json) (executions : List Json) (candidateCount : ℕ) (verified : Bool)
    (preflight semantic : List Json) : Except Exn Assessment := do
  let spec := spec.orElse (.obj [])
  let session ← assessPreflight spec preflight verified
  let reported ← reportKeys executions
  let items ← assessItems spec executions verified session reported semantic
  let baseline := hasBaseline verified items
  let items := items.map (baselineStep baseline)
  let unexpected :=
    (reported.filter fun p => !items.any fun i => i.identityId == .str p.1).length
  let hash ← snapshotHash spec
  return {
    status := runStatus items unexpected
    evaluated := stateCount items .evaluated
    inconclusive := stateCount items .inconclusive
    missing := stateCount items .missing
    skipped := stateCount items .skipped
    unexpected
    baselineValid := baseline
    candidateFindings := candidateCount
    identities := items
    reasons := runReasons spec verified baseline items unexpected
    caseHash := hash
    caseSnapshotVerified := spec.truthy && verified
    preflight := session }

end VardrMap
