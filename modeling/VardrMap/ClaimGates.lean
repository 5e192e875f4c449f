import VardrMap.Authority
import VardrMap.ExecutionControl
import VardrMap.Lib.Sorting
import Mathlib.Data.String.Basic

/-!
# The gates of a claim

Three ledgers of an engagement are charged when a job is claimed: reserved executions,
attempts against represented origins, and allocated seconds. A fourth gate asks the policy
evaluator, whose findings are advisory except for stop-work.
-/
namespace VardrMap
open Lib Policy

variable [Unicode]

/-! ## Represented origins -/

/-- `_case_identities`. -/
def caseIdentities (spec : Json) : Except Exn (List Json) := do
  let identities ← ((← spec.get "identities").orElse (.arr [])).iter
  let verification ← spec.get "write_verification"
  if verification.isObj && verification.hasField "identity" then
    return identities ++ [verification.field "identity"]
  return identities

/-- `_preflight_origin`: scheme, host and effective port of a request URL. -/
def preflightOrigin (raw : Json) : Except Exn (Text × Text × ℕ) := do
  let .str s := raw | .error .valueError
  if 2000 < s.utf8ByteSize then .error .valueError
  let parsed ← Url.urlsplit s.toList
  let some host := parsed.hostname | .error .valueError
  if !(parsed.scheme == "http".toList || parsed.scheme == "https".toList) || host.isEmpty ||
      parsed.username.isSome || !parsed.fragment.isEmpty then .error .valueError
  let port ← parsed.port
  if port == some 0 then .error .valueError
  return (parsed.scheme, Unicode.lower host,
    port.getD (if parsed.scheme == "https".toList then 443 else 80))

/-- The requests that a case sends: its own, the setup, the preflights, and the write
verification with its reset. -/
def caseRequests (case : Json) : Except Exn (List Json) := do
  let request ← case.item "request"
  let setup ← ((← case.get "setup").orElse (.arr [])).iter
  let steps ← setup.mapM fun step => step.item "request"
  let identities ← caseIdentities case
  let preflights ← identities.mapM fun identity => identity.get "preflight"
  let verification ← case.get "write_verification"
  let checks ← verificationRequests verification
  return request :: (steps ++ preflights.filter (· != .null) ++ checks)
where
  /-- The requests of a write verification. -/
  verificationRequests (verification : Json) : Except Exn (List Json) := do
    if verification == .null then return []
    let request ← verification.item "request"
    let reset ← verification.get "reset"
    if reset == .null then return [request]
    return [request, ← reset.item "request"]

/-- The origin text of a request, with an IPv6 host in its canonical form. -/
def representedOrigin (request : Json) : Except Exn String := do
  let (scheme, host, port) ← preflightOrigin (← request.item "url")
  if !host.all isAscii || host.getLast? == some '.' || host.contains '%' then .error .valueError
  if host.contains ':' then
    let some n := Ip.v6Value host | .error .valueError
    return originText scheme (Ip.v6Text n) port
  return originText scheme host port

/-- `target_budget.binding`: every failure is the same refusal. -/
def targetBinding (case : Json) : Except Refusal TargetBinding :=
  match bound with
  | .ok b => .ok b
  | .error _ => .error (.http 409 "unsupported target budget case")
where
  bound : Except Exn TargetBinding := do
    let requests ← caseRequests case
    let origins := sortedSet (← requests.mapM representedOrigin)
    if origins.isEmpty || 100 < origins.length then .error .valueError
    return ⟨"gate-fixed-http/1", ← caseHash case, origins⟩

/-! ## The ledgers -/

/-- `target_budget.charge`: the engagement with the origins of the case charged to it. -/
def charge (engagement : Engagement) (job : ScanJob) (case : Option Json)
    (body : Option ClaimControl) : Except Refusal (Engagement × Option TargetReceipt) := do
  let supplied := body.bind (·.targetBinding)
  match engagement.targetLimit with
  | none =>
    ensure supplied.isNone (.http 409 "explicit engagement target policy required")
    return (engagement, none)
  | some limit =>
    ensure (supplied.isSome && job.toolType == "vardrgate_api_test" && case.isSome)
      (.http 409 "target policy requires bound fixed Gate owned execution")
    let expected ← targetBinding (case.getD .null)
    ensure (supplied == some expected) (.http 409 "target binding mismatch")
    let count := expected.origins.length
    ensure (engagement.targetsSpent + count ≤ limit)
      (.http 409 "engagement target allowance exhausted")
    let spent := engagement.targetsSpent + count
    return ({ engagement with targetsSpent := spent }, some ⟨expected, count, spent, limit⟩)

omit [Unicode] in
/-- `duration_budget.allocate`: the engagement with the seconds allocated. -/
def allocate (engagement : Engagement) (body : Option ClaimControl) :
    Except Refusal (Engagement × Option DurationReceipt) := do
  let seconds := body.bind (·.durationSeconds)
  match engagement.durationLimit with
  | none =>
    ensure seconds.isNone (.http 409 "explicit engagement duration policy required")
    return (engagement, none)
  | some limit =>
    let n ← found seconds (.http 409 "duration policy requires a finite owned allocation")
    let total := engagement.durationAllocated + n
    ensure (total ≤ limit) (.http 409 "engagement duration allocation exhausted")
    return ({ engagement with durationAllocated := total }, some ⟨n, total, limit⟩)

/-- `concurrency_budget.reserved`: the executions of an engagement that hold capacity. -/
def Db.reserved (db : Db) (engagementId : String) : ℕ :=
  db.executions.count fun x => x.capacityReserved &&
    (db.jobs.get? x.jobId).any fun j => j.programId == engagementId

/-- `require_idle`. -/
def requireIdle (db : Db) (engagementId : String) : Except Refusal Unit :=
  ensure (db.reserved engagementId == 0 &&
      !db.jobs.rows.any fun j => j.programId == engagementId && j.status == .running)
    (.http 409 "running or unresolved work prevents policy change or deletion")

/-- `concurrency_budget.before_claim`. -/
def beforeClaim (db : Db) (engagement : Engagement) (body : Option ClaimControl) :
    Except Refusal Unit :=
  let optedIn := body.any (·.concurrencyBudget)
  match engagement.concurrencyLimit with
  | none => ensure (!optedIn) (.http 409 "explicit engagement concurrency policy required")
  | some limit => do
    ensure optedIn (.http 409 "engagement requires budgeted owned execution")
    ensure (db.reserved engagement.id < limit)
      (.http 409 "engagement execution capacity exhausted")

/-! ## The advisory policy check -/

/-- `_authorization`: the record created last governs; rows are kept in order of
creation. -/
def governingAuthorization (db : Db) (programId : String) : Option AuthorizationSnapshot :=
  (db.authorizations.rows.filter fun a => a.programId == programId).getLast?.map fun a =>
    { status := a.status
      windowStart := a.windowStart
      windowEnd := a.windowEnd
      permittedCapabilities := [] }

/-- `build_input`. -/
def policyInput (db : Db) (engagement : Engagement) (capability : String) (now : DateTime) :
    PolicyInput where
  engagementStatus := engagement.engagementStatus.getD ""
  engagementType := engagement.engagementType.getD ""
  target := []
  capability
  now
  stopWork := engagement.stopWorkAt.isSome
  authorization := governingAuthorization db engagement.id
  scopeRules := (db.scopeItems.rows.filter fun r =>
    r.programId == engagement.id && !r.value.isEmpty).map ScopeItem.rule

/-- `enforcement.check`: a finding to report, or the refusal of stop-work. -/
def enforcementCheck (db : Db) (engagement : Engagement) (capability : String)
    (targets : List Text) (now : DateTime) : Except Refusal (Option PolicyDecision) := do
  let decision ← raise (evaluateAll (policyInput db engagement capability now) targets)
  if decision.allowed then return none
  ensure (decision.reason != .stopWorkActive) (.http 403 decision.detail)
  return some decision

/-! ## What the gates leave -/

theorem charge_eq_ok {e e' : Engagement} {job : ScanJob} {case : Option Json}
    {body : Option ClaimControl} {receipt : Option TargetReceipt}
    (h : charge e job case body = .ok (e', receipt)) :
    e' = { e with targetsSpent := e.targetsSpent + (receipt.map TargetReceipt.charged).getD 0 } ∧
      (receipt.isSome → e'.targetsSpent ≤ e.targetLimit.getD 0) := by
  unfold charge at h
  split at h
  · obtain ⟨_, -, h⟩ := bind_eq_ok h
    obtain ⟨rfl, rfl⟩ := Prod.mk.inj (Except.ok.inj h)
    exact ⟨rfl, fun hr => by simp at hr⟩
  · rename_i limit hlimit
    obtain ⟨_, -, h⟩ := bind_eq_ok h
    obtain ⟨expected, -, h⟩ := bind_eq_ok h
    obtain ⟨_, -, h⟩ := bind_eq_ok h
    dsimp only at h
    obtain ⟨_, hle, h⟩ := bind_eq_ok h
    obtain ⟨rfl, rfl⟩ := Prod.mk.inj (Except.ok.inj h)
    have hle := ensure_eq_ok hle
    refine ⟨rfl, fun _ => ?_⟩
    rw [hlimit]
    simpa using hle

omit [Unicode] in
theorem allocate_eq_ok {e e' : Engagement} {body : Option ClaimControl}
    {receipt : Option DurationReceipt} (h : allocate e body = .ok (e', receipt)) :
    e' = { e with durationAllocated :=
        e.durationAllocated + (receipt.map DurationReceipt.allocatedSeconds).getD 0 } ∧
      (receipt.isSome → e'.durationAllocated ≤ e.durationLimit.getD 0) := by
  unfold allocate at h
  split at h
  · obtain ⟨_, -, h⟩ := bind_eq_ok h
    obtain ⟨rfl, rfl⟩ := Prod.mk.inj (Except.ok.inj h)
    exact ⟨rfl, fun hr => by simp at hr⟩
  · rename_i limit hlimit
    obtain ⟨n, -, h⟩ := bind_eq_ok h
    dsimp only at h
    obtain ⟨_, hle, h⟩ := bind_eq_ok h
    obtain ⟨rfl, rfl⟩ := Prod.mk.inj (Except.ok.inj h)
    have hle := ensure_eq_ok hle
    refine ⟨rfl, fun _ => ?_⟩
    rw [hlimit]
    simpa using hle

omit [Unicode] in
/-- A claim that passes reserves capacity only below the limit. -/
theorem beforeClaim_eq_ok {db : Db} {e : Engagement} {body : Option ClaimControl} {u : Unit}
    (h : beforeClaim db e body = .ok u) (hb : (body.any (·.concurrencyBudget)) = true) :
    db.reserved e.id < e.concurrencyLimit.getD 0 := by
  unfold beforeClaim at h
  dsimp only at h
  split at h
  · have := ensure_eq_ok h
    simp [hb] at this
  · rename_i limit hlimit
    obtain ⟨_, -, h⟩ := bind_eq_ok h
    have := ensure_eq_ok h
    rw [hlimit]
    simpa using this

omit [Unicode] in
theorem requireIdle_eq_ok {db : Db} {id : String} {u : Unit} (h : requireIdle db id = .ok u) :
    db.reserved id = 0 ∧ ∀ j ∈ db.jobs.rows, j.programId = id → j.status ≠ .running := by
  have h := ensure_eq_ok h
  simp only [Bool.and_eq_true, beq_iff_eq, Bool.not_eq_true', List.any_eq_false,
    Bool.and_eq_true, not_and] at h
  exact ⟨h.1, fun j hj hp hs => by simpa [hp, hs] using h.2 j hj⟩

/-- The check lets nothing through while stop-work is engaged. -/
theorem enforcementCheck_eq_ok {db : Db} {e : Engagement} {capability : String}
    {targets : List Text} {now : DateTime} {finding : Option PolicyDecision}
    (h : enforcementCheck db e capability targets now = .ok finding) : e.stopWorkAt = none := by
  unfold enforcementCheck at h
  obtain ⟨decision, hd, h⟩ := bind_eq_ok h
  cases hs : e.stopWorkAt with
  | none => rfl
  | some t =>
    have hdeny : evaluateAll (policyInput db e capability now) targets =
        .ok (deny .stopWorkActive "Stop-work is engaged for this engagement.") := by
      simp [evaluateAll, evaluateEngagement, policyInput, hs, deny]
    rw [hdeny] at hd
    obtain rfl := Except.ok.inj (raise_eq_ok hd)
    simp [deny, ensure, bind, Except.bind] at h

end VardrMap
