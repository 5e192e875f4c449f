import Mathlib.Logic.Basic
import VardrMap.AuthorizationCoverage.RowOrder
import VardrMap.Authority.SignedHost

/-!
# The coverage report

`buildCoverage_sound` assembles what the report says about every operation, that no
stored case and no executed run is dropped, and that the order of the rows is lost.
-/
namespace VardrMap
open Lib

variable [Unicode]

/-- What a coverage report says about the stored rows. -/
structure CoverageSound (db : Db) (inventory : Inventory) (programId : String)
    (result : Coverage) : Prop where
  /-- Every observed operation is reported once. -/
  operations_complete : (result.operations.map Operation.endpoint).Perm
    (inventory.endpoints.rows.filter fun e => e.programId == programId)
  /-- Conclusive: a case matches, every matching case has a conclusive latest current run,
  and no run that exercised the operation left a candidate. -/
  conclusive : ∀ op ∈ result.operations, op.state = .conclusive →
    (∃ case, Stored db programId case ∧ Matches op.endpoint case) ∧
    (∀ case, Stored db programId case → Matches op.endpoint case → ∃ job,
      LatestCurrent db programId case job ∧ job.assessment.field "status" = .str "conclusive") ∧
    ∀ job, Executed db programId job → Exercises op.endpoint job →
      ¬ Unresolved inventory programId job
  /-- A candidate flags the operation whatever became of the case. -/
  violation : ∀ op ∈ result.operations, ∀ job, Executed db programId job →
    Exercises op.endpoint job → Unresolved inventory programId job →
    op.state = .violationCandidate
  /-- The entries of an operation are its matching cases. -/
  entries : ∀ op ∈ result.operations, ∀ case, Stored db programId case →
    ((∃ e ∈ op.cases, e.caseId = case.id) ↔ Matches op.endpoint case)
  /-- A stored case is matched or listed, never both. -/
  cases_kept : ∀ case, Stored db programId case →
    Xor (∃ op ∈ result.operations, ∃ e ∈ op.cases, e.caseId = case.id)
      (∃ u ∈ result.unmatchedCases, u.caseId = case.id)
  /-- An executed run is attributed or listed, never both. -/
  runs_kept : ∀ job, Executed db programId job →
    Xor (∃ op ∈ result.operations, Exercises op.endpoint job)
      (∃ u ∈ result.unattributedAssessments, u.jobId = job.id)
  /-- The state counts are those of the operations, and add up to them. -/
  counts_sum : result.counts = operationStates.map (fun s =>
      (s, result.operations.countP fun o => o.state == s)) ∧
    (result.counts.map Prod.snd).sum = result.operations.length ∧
    result.total = result.operations.length
  /-- An identity is evaluated by the latest current run of every declaring case. -/
  evaluated : ∀ op ∈ result.operations, ∀ identity,
    (∃ r ∈ op.identityCoverage, r.identityId = identity ∧ r.state = "evaluated") ↔
      (∃ case, Stored db programId case ∧ Matches op.endpoint case ∧ Declares case identity) ∧
      ∀ case, Stored db programId case → Matches op.endpoint case → Declares case identity →
        ∃ job, LatestCurrent db programId case job ∧ EvaluatedIn job identity

theorem buildCoverage_eq_ok {db : Db} {inventory : Inventory} {programId : String}
    {result : Coverage} (h : buildCoverage db inventory programId = .ok result) :
    ∃ j, joinCoverage db inventory programId = .ok j ∧
      (endpointsOf inventory programId).mapM j.operation = .ok result.operations ∧
      result.total = result.operations.length ∧
      result.counts = operationStates.map (fun s =>
        (s, result.operations.countP fun o => o.state == s)) ∧
      result.unmatchedCases = j.unmatched (endpointsOf inventory programId) ∧
      result.unattributedAssessments = j.unattributed (endpointsOf inventory programId) := by
  unfold buildCoverage at h
  obtain ⟨j, hj, h⟩ := bind_eq_ok h
  obtain ⟨operations, hoperations, h⟩ := bind_eq_ok h
  obtain rfl := Except.ok.inj h
  exact ⟨j, hj, hoperations, rfl, rfl, rfl, rfl⟩

omit [Unicode] in
theorem forall₂_map_eq {α β : Type} {f : β → α} {l : List α} {out : List β}
    (h : List.Forall₂ (fun a b => f b = a) l out) : out.map f = l := by
  induction h with
  | nil => rfl
  | cons hab _ ih => rw [List.map_cons, hab, ih]

theorem coverageSound_of_ok {db : Db} {inventory : Inventory} {programId : String}
    {result : Coverage} (h : buildCoverage db inventory programId = .ok result) :
    CoverageSound db inventory programId result := by
  obtain ⟨j, hj, hoperations, htotal, hcounts, hunmatched, hunattributed⟩ := buildCoverage_eq_ok h
  have hjoin := joinCoverage_eq_ok hj
  have hops := mapM_eq_ok hoperations
  have hendpoints : result.operations.map Operation.endpoint = endpointsOf inventory programId :=
    forall₂_map_eq (hops.imp fun _ _ ho => (operation_eq_ok ho).1)
  have hop : ∀ op ∈ result.operations, ∃ matched, OperationOf j op matched := by
    intro op hmem
    obtain ⟨e, -, he⟩ := exists_of_mem_forall₂ hops hmem
    exact (operation_eq_ok he).2
  have hexists : ∀ p : ApiEndpoint → Prop,
      (∃ e ∈ endpointsOf inventory programId, p e) ↔ ∃ op ∈ result.operations, p op.endpoint := by
    intro p
    rw [← hendpoints]
    simp
  have hentries : ∀ op ∈ result.operations, ∀ case, Stored db programId case →
      ((∃ e ∈ op.cases, e.caseId = case.id) ↔ Matches op.endpoint case) := by
    intro op hmem case hc
    obtain ⟨matched, ho⟩ := hop op hmem
    exact ho.entry_iff hjoin hc
  refine ⟨?_, ?_, ?_, hentries, ?_, ?_, ⟨hcounts, ?_, htotal⟩, ?_⟩
  · rw [hendpoints]
    exact sortBy_perm _ _
  · intro op hmem hstate
    obtain ⟨matched, ho⟩ := hop op hmem
    exact ho.conclusive hjoin hstate
  · intro op hmem job hex hexercises hun
    obtain ⟨matched, ho⟩ := hop op hmem
    exact ho.violation hjoin hex hexercises hun
  · intro case hc
    rw [hunmatched, hjoin.mem_unmatched hc, hexists fun e => Matches e case]
    have hiff : (∃ op ∈ result.operations, ∃ e ∈ op.cases, e.caseId = case.id) ↔
        ∃ op ∈ result.operations, Matches op.endpoint case :=
      exists_congr fun op => and_congr_right fun hmem => hentries op hmem case hc
    rw [hiff]
    exact xor_not_right.mpr Iff.rfl
  · intro job hex
    rw [hunattributed, hjoin.mem_unattributed hex, hexists fun e => Exercises e job]
    exact xor_not_right.mpr Iff.rfl
  · rw [hcounts]
    exact sum_stateCounts _
  · intro op hmem identity
    obtain ⟨matched, ho⟩ := hop op hmem
    exact ho.evaluated_iff hjoin

/-- Two reports with the same operations in the same states. -/
structure Coverage.SameStates (result result' : Coverage) : Prop where
  operations : List.Forall₂ Operation.SameStates result.operations result'.operations
  counts : result.counts = result'.counts
  total : result.total = result'.total

omit [Unicode] in
theorem countP_sameStates {operations operations' : List Operation}
    (h : List.Forall₂ Operation.SameStates operations operations') (s : OperationState) :
    operations.countP (fun o => o.state == s) = operations'.countP fun o => o.state == s := by
  induction h with
  | nil => rfl
  | cons hop _ ih => rw [List.countP_cons, List.countP_cons, ih, hop.state_eq]

theorem buildCoverage_reordered {db db' : Db} {inventory inventory' : Inventory}
    {programId : String} {result : Coverage} (hre : Reordered db db' inventory inventory')
    (h : buildCoverage db inventory programId = .ok result) :
    ∃ result', buildCoverage db' inventory' programId = .ok result' ∧
      result.SameStates result' := by
  obtain ⟨j, hj, hoperations, htotal, hcounts, -, -⟩ := buildCoverage_eq_ok h
  obtain ⟨j', hj', hsame⟩ := joinCoverage_reordered hre hj
  obtain ⟨operations', hoperations', hrel⟩ := mapM_rel (g := j'.operation)
    (R := Operation.SameStates)
    (fun e _ op hop => operation_reordered hsame (joinCoverage_eq_ok hj) hop) hoperations
  rw [hre.endpointsOf_eq] at hoperations'
  apply Exists.intro
  apply And.intro
  · unfold buildCoverage
    rw [hj']
    dsimp only [bind, Except.bind]
    rw [hoperations']
    rfl
  · refine ⟨hrel, ?_, ?_⟩
    · rw [hcounts]
      simp only [countP_sameStates hrel]
    · rw [htotal]
      exact hrel.length_eq

/-- The report is sound, keeps every case and every run, and does not depend on the order
of the stored rows. -/
theorem buildCoverage_sound {db : Db} {inventory : Inventory} {programId : String}
    {result : Coverage} (h : buildCoverage db inventory programId = .ok result) :
    CoverageSound db inventory programId result ∧
      ∀ db' inventory', Reordered db db' inventory inventory' →
        ∃ result', buildCoverage db' inventory' programId = .ok result' ∧
          result.SameStates result' :=
  ⟨coverageSound_of_ok h, fun _ _ hre => buildCoverage_reordered hre h⟩

/-! ## One engagement

The stored case of two identities, run twice: the earlier run evaluated both identities,
the later one only the admin. -/

def exampleEndpoint : ApiEndpoint where
  id := "o1"
  programId := "e1"
  method := "GET"
  scheme := some "https"
  host := "api.example.com"
  port := none
  pathTemplate := "/orders/{id}"

def exampleStoredCase : AuthorizationTestCase where
  id := "c1"
  programId := "e1"
  name := "orders"
  testCaseId := "orders"
  spec := exampleCase
  createdAt := 0

def exampleReport (id expected state : String) : Json := .obj [("identity_id", .str id),
  ("expected_decision", .str expected), ("state", .str state), ("reason", .str "")]

/-- A finished run of the stored case. -/
def exampleRun (id : String) (completed : Instant) (status peer : String) : ScanJob :=
  { exampleJob with
    id
    caseSnapshot := exampleCase
    assessment := .obj [("status", .str status), ("case_snapshot_verified", .bool true),
      ("identities", .arr [exampleReport "admin" "allow" "evaluated",
        exampleReport "peer" "deny" peer])]
    status := .done
    completedAt := some completed }

def exampleRuns : Table ScanJob :=
  ⟨[exampleRun "j1" 1 "conclusive" "evaluated", exampleRun "j2" 2 "partial" "inconclusive"],
    by decide⟩

def exampleCoverageDb : Db :=
  { Db.empty with testCases := .single exampleStoredCase, jobs := exampleRuns }

def exampleInventory : Inventory where
  endpoints := .single exampleEndpoint
  exchanges := .empty
  scanItems := .empty
  evidence := .empty

/-- The report has the one operation in state partial, with the peer inconclusive. -/
def partialWithPeerOpen (result : Coverage) : Bool :=
  match result.operations with
  | [op] => op.state == .partial_ && op.endpoint.id == "o1" &&
      op.identityCoverage.all fun r => r.identityId != "peer" || r.state == "inconclusive"
  | _ => false

omit [Unicode] in
theorem exampleCoverage_eq_ok :
    ∃ result, @buildCoverage Unicode.ascii exampleCoverageDb exampleInventory "e1" = .ok result ∧
      partialWithPeerOpen result = true := by
  have h : (@buildCoverage Unicode.ascii exampleCoverageDb exampleInventory "e1").toOption.any
      partialWithPeerOpen = true := by decide +kernel
  cases hr : @buildCoverage Unicode.ascii exampleCoverageDb exampleInventory "e1" with
  | error e => simp [hr, Except.toOption] at h
  | ok result => exact ⟨result, rfl, by simpa [hr, Except.toOption] using h⟩

omit [Unicode] in
theorem buildCoverage_sound_example :
    ∃ result, @buildCoverage Unicode.ascii exampleCoverageDb exampleInventory "e1" = .ok result ∧
      @CoverageSound Unicode.ascii exampleCoverageDb exampleInventory "e1" result := by
  obtain ⟨result, h, -⟩ := exampleCoverage_eq_ok
  exact ⟨result, h, (@buildCoverage_sound Unicode.ascii _ _ _ _ h).1⟩

/-! ## An earlier run does not count -/

/-- An identity is evaluated as soon as some current run of every declaring case evaluated
it. -/
def EvaluatedBySomeRun : Prop :=
  ∀ (db : Db) (inventory : Inventory) (programId : String) (result : Coverage),
    buildCoverage db inventory programId = .ok result →
    ∀ op ∈ result.operations, ∀ identity,
      (∃ case, Stored db programId case ∧ Matches op.endpoint case ∧ Declares case identity) →
      (∀ case, Stored db programId case → Matches op.endpoint case → Declares case identity →
        ∃ job, Executed db programId job ∧ RanPresentSpec case job ∧ EvaluatedIn job identity) →
      ∃ r ∈ op.identityCoverage, r.identityId = identity ∧ r.state = "evaluated"

omit [Unicode] in
theorem exampleStoredCase_matches :
    @Matches Unicode.ascii exampleEndpoint exampleStoredCase ∧
      @Declares Unicode.ascii exampleStoredCase "peer" := by
  have h : (@readCase Unicode.ascii exampleStoredCase).toOption.any (fun row => row.reviewed &&
      @requestMatches Unicode.ascii exampleEndpoint row.request &&
      row.identities.contains "peer") = true := by decide +kernel
  cases hr : @readCase Unicode.ascii exampleStoredCase with
  | error e => simp [hr, Except.toOption] at h
  | ok row =>
    simp only [hr, Except.toOption, Option.any_some, Bool.and_eq_true,
      List.contains_iff_mem] at h
    exact ⟨⟨row, hr, h.1.1, h.1.2⟩, row.identities, (@readCase_eq_ok Unicode.ascii _ _ hr).2.2, h.2⟩

omit [Unicode] in
theorem exampleRun_evaluated :
    Executed exampleCoverageDb "e1" (exampleRun "j1" 1 "conclusive" "evaluated") ∧
    @RanPresentSpec Unicode.ascii exampleStoredCase (exampleRun "j1" 1 "conclusive" "evaluated") ∧
    @EvaluatedIn Unicode.ascii (exampleRun "j1" 1 "conclusive" "evaluated") "peer" := by
  have hhash : ∃ hash, presentHash exampleCase = .ok (some hash) := by
    have h : (presentHash exampleCase).toOption.any Option.isSome = true := by decide +kernel
    cases hr : presentHash exampleCase with
    | error e => simp [hr, Except.toOption] at h
    | ok hash =>
      obtain ⟨text, htext⟩ := Option.isSome_iff_exists.mp (by simpa [hr, Except.toOption] using h)
      exact ⟨text, by rw [htext]⟩
  obtain ⟨hash, hhash⟩ := hhash
  exact ⟨⟨List.mem_cons_self, rfl, rfl, rfl⟩, ⟨rfl, ⟨hash, hhash, hhash⟩, rfl⟩, ⟨_, rfl, rfl⟩⟩

omit [Unicode] in
/-- Only the latest current run counts: the earlier run of the example evaluated the peer,
and the peer is reported as inconclusive. -/
theorem not_evaluatedBySomeRun : ¬ @EvaluatedBySomeRun Unicode.ascii := by
  intro hclaim
  obtain ⟨result, h, hpeer⟩ := exampleCoverage_eq_ok
  obtain ⟨hmatches, hdeclares⟩ := exampleStoredCase_matches
  obtain ⟨hexecuted, hran, hevaluated⟩ := exampleRun_evaluated
  have hstored : Stored exampleCoverageDb "e1" exampleStoredCase := ⟨List.mem_cons_self, rfl⟩
  unfold partialWithPeerOpen at hpeer
  split at hpeer
  · rename_i op hop
    simp only [Bool.and_eq_true, List.all_eq_true] at hpeer
    have hmem : op ∈ result.operations := by simp [hop]
    have hendpoint : op.endpoint = exampleEndpoint := by
      have hall := @CoverageSound.operations_complete Unicode.ascii _ _ _ _
        (@coverageSound_of_ok Unicode.ascii _ _ _ _ h)
      rw [hop] at hall
      exact List.mem_singleton.mp (hall.mem_iff.mp (List.mem_map_of_mem List.mem_cons_self))
    obtain ⟨r, hr, hid, hstate⟩ := hclaim _ _ _ result h op hmem "peer"
      ⟨_, hstored, hendpoint ▸ hmatches, hdeclares⟩
      (fun case hc _ _ => by
        obtain rfl : case = exampleStoredCase := List.mem_singleton.mp hc.1
        exact ⟨_, hexecuted, hran, hevaluated⟩)
    have := hpeer.2 r hr
    simp [hid, hstate] at this
  · simp at hpeer

end VardrMap
