import VardrMap.Lib.Json

/-!
# Bound, value-free conclusions

A semantic row is what the gate reports about one identity besides the raw responses.
`safeSemanticRow` drops whatever is not declared; `applySemantics` lets a row decide an
identity only when its source is bound to the reviewed case.
-/
namespace VardrMap
open Lib

/-! ## Rows -/

def semanticReasons : List String := [
  "status_only", "ambiguous_http_outcome", "execution_error", "no_expectation", "explicit_skip",
  "assertion_matched", "no_assertion_matched", "conflicting_assertions",
  "invalid_or_unsupported_json", "credential_rejected", "state_changed", "state_unchanged",
  "verifier_read_failed", "verifier_denied", "verifier_value_unavailable",
  "verifier_baseline_missing", "state_changing_concurrently", "target_value_already_present",
  "state_changed_unexpectedly", "verifier_unexpected_status", "write_execution_error",
  "no_positive_control", "positive_control_failed", "write_completion_unconfirmed",
  "write_environment_unverified", "verifier_reset_failed", "reset_baseline_mismatch",
  "execution_cancelled", "identity_preflight_failed"]

def credentialStatuses : List String := [
  "anonymous_identity", "not_checked", "preflight_passed", "preflight_failed",
  "preflight_passed_resource_401", "resource_401_unverified"]

def writeStatuses : List String := [
  "not_configured", "not_applied", "inconclusive", "verified_effect", "verified_no_effect"]

/-- The value when it is one of the allowed texts, else the fallback. -/
def enumValue (value : Json) (allowed : List String) (fallback : String) : String :=
  match value with
  | .str s => if allowed.contains s then s else fallback
  | _ => fallback

def safeIdentity (value : Json) : String :=
  match value with
  | .str s => if 0 < s.length && s.length ≤ 200 then s else ""
  | _ => ""

/-- An integer between the bounds. -/
def boundedInt? (lo hi : ℤ) (value : Json) : Option ℤ :=
  value.int?.filter fun n => lo ≤ n && n ≤ hi

/-- A list of at most `size` bounded integers, else the empty list. -/
def boundedInts (size : ℕ) (lo hi : ℤ) (value : Json) : List ℤ :=
  match value with
  | .arr xs => if xs.length ≤ size then (xs.mapM (boundedInt? lo hi)).getD [] else []
  | _ => []

/-- The part of a row about a verified write. -/
structure Verification where
  strategy : String
  environment : String
  readerIdentityId : String
  readerCredentialStatus : String
  beforeStatuses : List ℤ
  afterStatus : ℤ
  resetStatus : ℤ
  deriving DecidableEq

/-- A semantic row without undeclared or free-form values. -/
structure SemanticRow where
  identityId : String
  expectedAccess : String
  decision : String
  source : String
  reason : String
  credentialStatus : String
  writeVerification : String
  matchedAssertions : List ℤ
  executionIndex : Option ℤ
  verification : Option Verification
  deriving DecidableEq

def safeVerification (v : Json) : Verification where
  strategy := enumValue (v.field "strategy") ["changed", "created", "deleted", "legacy_change"]
    "unknown"
  environment := enumValue (v.field "environment") ["unknown", "synchronous_isolated", "legacy"]
    "unknown"
  readerIdentityId := safeIdentity (v.field "reader_identity_id")
  readerCredentialStatus := enumValue (v.field "reader_credential_status") credentialStatuses
    "not_recorded"
  beforeStatuses := boundedInts 2 0 599 (v.field "before_statuses")
  afterStatus := (boundedInt? 0 599 (v.field "after_status")).getD 0
  resetStatus := (boundedInt? 0 599 (v.field "reset_status")).getD 0

/-- `safe_semantic_row`: only a dictionary can be read. -/
def safeSemanticRow (row : Json) : Except Exn SemanticRow :=
  if !row.isObj then .error .attributeError
  else .ok {
    identityId := safeIdentity (row.field "identity_id")
    expectedAccess := enumValue (row.field "expected_access") ["allow", "deny", "skip"] "unknown"
    decision := enumValue (row.field "decision") ["allowed", "denied", "inconclusive", "skipped"]
      "inconclusive"
    source := enumValue (row.field "source")
      ["none", "http_status", "response_assertion", "write_verification"] "none"
    reason := enumValue (row.field "reason") semanticReasons "unrecognized_assessment_reason"
    credentialStatus := enumValue (row.field "credential_status") credentialStatuses "not_recorded"
    writeVerification := enumValue (row.field "write_verification") writeStatuses "not_recorded"
    matchedAssertions := boundedInts 32 0 31 (row.field "matched_assertions")
    executionIndex := boundedInt? 0 99 (row.field "execution_index")
    verification := if (row.field "verification").isObj then
      some (safeVerification (row.field "verification")) else none }

/-! ## Assessed identities -/

inductive IdentityState where
  | evaluated
  | inconclusive
  | missing
  | skipped
  deriving DecidableEq

/-- The assessment of one declared identity. -/
structure IdentityItem where
  identityId : Json
  expectedDecision : Json
  observedOutcome : String
  state : IdentityState
  reason : String
  reportedDecision : Option String
  source : Option String
  credentialStatus : Option String
  writeVerification : Option String
  matchedAssertions : Option (List ℤ)
  verification : Option Verification
  deriving DecidableEq

/-- `item.update(state=..., reason=...)`. -/
def IdentityItem.update (item : IdentityItem) (state : IdentityState) (reason : String) :
    IdentityItem :=
  { item with state, reason }

/-! ## Binding checks -/

/-- The value when it is a dictionary, else an empty one. -/
def objOrEmpty (value : Json) : Json := if value.isObj then value else .obj []

/-- The write oracle of a case, and the identity that reads for it. -/
def oracleOf (spec : Json) : Json := objOrEmpty (spec.field "write_verification")

def readerOf (spec : Json) : Json := objOrEmpty ((oracleOf spec).field "identity")

/-- The rule admits the status code: no codes, or one of them. -/
def statusConstraint (rule : Json) (status : ℤ) : Bool :=
  match if rule.hasField "status_codes" then rule.field "status_codes" else .arr [] with
  | .arr codes =>
    codes.all (fun c => (boundedInt? 100 599 c).isSome) &&
      (codes.isEmpty || codes.contains (.int status))
  | _ => false

/-- A status code that an HTTP response can carry. -/
def httpStatus? (execution : Json) : Option ℤ := boundedInt? 100 599 (execution.field "status_code")

/-- An execution that reports no error. -/
def errorFree (execution : Json) : Bool :=
  !(execution.field "error").truthy && !(execution.field "error_kind").truthy

/-- Rule number `i` of the case decides as reported and admits the status. -/
def ruleHolds (rules : List Json) (decision : String) (status : ℤ) (i : ℤ) : Bool :=
  match rules[i.toNat]? with
  | some rule => rule.isObj && rule.field "decision" == .str decision && statusConstraint rule status
  | none => false

/-- Assertions of the case, matched by number. -/
def responseBound (configured execution : Json) (row : SemanticRow) (decision : String) : Bool :=
  match (configured.field "response_assertions").orElse (.arr []), httpStatus? execution with
  | .arr rules, some status =>
    !row.matchedAssertions.isEmpty && row.reason == "assertion_matched" &&
      row.matchedAssertions.all (ruleHolds rules decision status)
  | _, _ => false

def success (status : ℤ) : Bool := 200 ≤ status && status < 300

/-- The statuses read before and after the write, and after its reset, are those the
oracle of the case asks for. -/
def readsBound (oracle : Json) (afterCodes : List Json) (v : Verification) : Bool :=
  v.environment != "unknown" &&
    v.beforeStatuses.all (fun s =>
      if oracle.field "strategy" == .str "created" then s == 404 else success s) &&
    (success v.afterStatus || v.afterStatus == 404 || afterCodes.contains (.int v.afterStatus)) &&
    (!(oracle.field "reset").truthy || (success v.resetStatus && v.resetStatus != 202))

/-- A verified write, bound to the oracle of the case. -/
def writeBound (spec execution : Json) (row : SemanticRow) (decision : String) : Bool :=
  let oracle := oracleOf spec
  match if oracle.hasField "after_status" then oracle.field "after_status" else .arr [],
    row.verification with
  | .arr afterCodes, some v =>
    oracle.truthy && afterCodes.all (fun c => (boundedInt? 400 499 c).isSome) &&
      (readerOf spec).field "id" == .str v.readerIdentityId &&
      (oracle.field "strategy").orElse (.str "legacy_change") == .str v.strategy &&
      (oracle.field "environment").orElse (.str "legacy") == .str v.environment &&
      v.beforeStatuses.length == 2 && 0 < v.afterStatus &&
      row.reason == (if decision == "allow" then "state_changed" else "state_unchanged") &&
      readsBound oracle afterCodes v &&
      (decision != "deny" ||
        (errorFree execution && (httpStatus? execution).any fun status => status != 202))
  | _, _ => false

/-- The check of a row's source against the case and the one matching execution. -/
def sourceValid (spec configured execution : Json) (isProtected : Bool) (item : IdentityItem)
    (row : SemanticRow) (decision : String) : Bool :=
  if row.source == "response_assertion" && errorFree execution && (httpStatus? execution).isSome then
    responseBound configured execution row decision
  else if row.source == "write_verification" then writeBound spec execution row decision
  else if row.source == "http_status" && !isProtected then
    item.state == .evaluated && item.observedOutcome == decision
  else false

/-! ## Applying rows -/

/-- The expectations of the case for one identity. -/
def expectationsFor (spec : Json) (identity : Json) : Except Exn (List Json) := do
  let expectations ← (← spec.getD "expected_access" (.arr [])).iter
  expectations.filterE fun r => do return (← r.get "identity_id").pyEq identity

/-- The only expectation, an empty dictionary when there is not exactly one. -/
def configuredOf (expectations : List Json) : Json :=
  match expectations with
  | [r] => r
  | _ => .obj []

/-- The identity has response assertions, or the case a write oracle. -/
def isProtectedBy (spec configured : Json) : Bool :=
  ((configured.field "response_assertions").orElse (spec.field "write_verification")).truthy

/-- The reported executions of one identity. -/
def executionsFor (executions : List Json) (identity : Json) : Except Exn (List Json) :=
  executions.filterE fun e => do return (← e.get "identity_id").pyEq identity

/-- The row's execution index, when it has one, points at an execution of the identity. -/
def indexMatches (executions : List Json) (identity : Json) (row : SemanticRow) :
    Except Exn Bool :=
  match row.executionIndex with
  | none => .ok true
  | some i =>
    match executions[i.toNat]? with
    | none => .ok false
    | some e => do return (← e.get "identity_id").pyEq identity

/-- The decision of a row, as an expectation would write it. -/
def decisionText (row : SemanticRow) : String := if row.decision == "allowed" then "allow" else "deny"

/-- A bound row decides; a denied legitimate baseline does not. -/
def concludeRow (item : IdentityItem) (row : SemanticRow) (valid : Bool) : IdentityItem :=
  if valid then
    if item.expectedDecision == .str "allow" && decisionText row != "allow" then
      item.update .inconclusive "legitimate_baseline_denied"
    else item.update .evaluated ("reported_" ++ row.source)
  else item.update .inconclusive "semantic_assessment_inconsistent"

/-- The item with the row's reported fields. -/
def withReport (spec : Json) (item : IdentityItem) (row : SemanticRow) : IdentityItem :=
  { item with
    reportedDecision := row.decision
    source := row.source
    credentialStatus := row.credentialStatus
    writeVerification := row.writeVerification
    matchedAssertions := row.matchedAssertions
    verification := match row.verification with
      | some v => if (readerOf spec).field "id" == .str v.readerIdentityId then some v
        else item.verification
      | none => item.verification }

/-- The single row of an identity is applied to the item that reports it. -/
def applyRow (spec configured : Json) (isProtected : Bool) (executions : List Json) (verified : Bool)
    (item : IdentityItem) (row : SemanticRow) : Except Exn IdentityItem := do
  if item.state == .skipped then return item
  if !verified then return item.update .inconclusive "case_snapshot_unverified"
  if row.decision != "allowed" && row.decision != "denied" then
    return item.update .inconclusive row.reason
  let actual ← executionsFor executions item.identityId
  match actual with
  | [execution] =>
    if ← indexMatches executions item.identityId row then
      return concludeRow item row
        (sourceValid spec configured execution isProtected item row (decisionText row))
    else return item.update .inconclusive "semantic_assessment_inconsistent"
  | _ => return item.update .inconclusive "semantic_assessment_inconsistent"

/-- `apply_semantics` for one identity. -/
def applySemantics (spec : Json) (executions : List Json) (semantic : List SemanticRow)
    (verified : Bool) (item : IdentityItem) : Except Exn IdentityItem := do
  let configured := configuredOf (← expectationsFor spec item.identityId)
  let isProtected := isProtectedBy spec configured
  match semantic.filter fun r => item.identityId == .str r.identityId with
  | [] =>
    if isProtected && item.state != .skipped then
      return item.update .inconclusive "semantic_assessment_missing"
    else return item
  | [row] =>
    if item.expectedDecision == .str row.expectedAccess then
      applyRow spec configured isProtected executions verified (withReport spec item row) row
    else return item.update .inconclusive "semantic_assessment_inconsistent"
  | _ => return item.update .inconclusive "semantic_assessment_inconsistent"

end VardrMap
