import Mathlib.Data.List.ReduceOption
import VardrMap.AuthorizationCoverage
import VardrMap.Assessments.Soundness

/-!
# What coverage states and what it keeps

The states of the report are read back to the stored rows: which cases match an
operation, which runs are current for a case, and which runs exercised an operation.
Every stored case and every executed run is somewhere in the report, and the report does
not depend on the order in which the rows are stored.
-/
namespace VardrMap
open Lib

variable [Unicode]

/-! ## Stored rows -/

/-- A stored case of the engagement. -/
def Stored (db : Db) (programId : String) (case : AuthorizationTestCase) : Prop :=
  case ∈ db.testCases.rows ∧ case.programId = programId

/-- A job of the engagement that reported an assessment. -/
def Executed (db : Db) (programId : String) (job : ScanJob) : Prop :=
  job ∈ db.jobs.rows ∧ job.programId = programId ∧ job.toolType = gateTool ∧
    job.assessment.truthy = true

/-- The case states an allow or deny expectation, and its request reaches the
operation. -/
def Matches (endpoint : ApiEndpoint) (case : AuthorizationTestCase) : Prop :=
  ∃ row, readCase case = .ok row ∧ row.reviewed = true ∧
    requestMatches endpoint row.request = true

/-- The request that the job executed reached the operation. -/
def Exercises (endpoint : ApiEndpoint) (job : ScanJob) : Prop :=
  requestMatches endpoint (parseRequest ((objOrEmpty job.caseSnapshot).field "request")) = true

/-- The job ran the present specification of the case, and verified so. -/
def RanPresentSpec (case : AuthorizationTestCase) (job : ScanJob) : Prop :=
  job.testCaseId = .ok case.id ∧
    (∃ hash, presentHash case.spec = .ok (some hash) ∧
      presentHash job.caseSnapshot = .ok (some hash)) ∧
    (job.assessment.field "case_snapshot_verified").truthy = true

/-- The latest run of the case's present specification. -/
def LatestCurrent (db : Db) (programId : String) (case : AuthorizationTestCase) (job : ScanJob) :
    Prop :=
  (Executed db programId job ∧ RanPresentSpec case job) ∧
    ∀ other, Executed db programId other → RanPresentSpec case other →
      recency other ≤ recency job

/-- An open or promoted candidate came from the job. -/
def Unresolved (inventory : Inventory) (programId : String) (job : ScanJob) : Prop :=
  ∃ item ∈ inventory.scanItems.rows, item.programId = programId ∧ item.source = "vardrgate" ∧
    item.jobId = some job.id ∧
    (isOpenCandidate (textOr item.status "new") = true ∨ textOr item.status "new" = "promoted")

/-- The case declares the identity. -/
def Declares (case : AuthorizationTestCase) (identity : String) : Prop :=
  ∃ ids, identityIds (objOrEmpty case.spec) = .ok ids ∧ identity ∈ ids

/-- The last report of the job about the identity is that it was evaluated. -/
def EvaluatedIn (job : ScanJob) (identity : String) : Prop :=
  ∃ cells, reportedCells job.assessment = .ok cells ∧
    (cells.reverse.lookup identity).map Cell.state = some "evaluated"

/-! ## Reading rows -/

theorem readCase_eq_ok {case : AuthorizationTestCase} {row : CaseRow}
    (h : readCase case = .ok row) :
    row.case = case ∧ presentHash case.spec = .ok row.hash ∧
      identityIds (objOrEmpty case.spec) = .ok row.identities := by
  unfold readCase at h
  obtain ⟨hash, hhash, h⟩ := bind_eq_ok h
  obtain ⟨ids, hids, h⟩ := bind_eq_ok h
  obtain ⟨decisions, -, h⟩ := bind_eq_ok h
  obtain rfl := Except.ok.inj h
  exact ⟨rfl, hhash, hids⟩

theorem runOf_eq_ok {job : ScanJob} {run : Run} (h : runOf job = .ok run)
    (hexecuted : job.assessment.truthy = true) :
    run.job = job ∧ job.testCaseId = .ok run.caseId ∧
      run.request = parseRequest ((objOrEmpty job.caseSnapshot).field "request") ∧
      presentHash job.caseSnapshot = .ok run.snapshotHash ∧
      run.verified = (job.assessment.field "case_snapshot_verified").truthy := by
  unfold runOf at h
  obtain ⟨caseId, hcase, h⟩ := bind_eq_ok h
  obtain ⟨hash, hhash, h⟩ := bind_eq_ok h
  obtain ⟨verified, hverified, h⟩ := bind_eq_ok h
  obtain rfl := Except.ok.inj h
  rw [Json.orElse, if_pos hexecuted] at hverified
  exact ⟨rfl, hcase, rfl, hhash, by rw [Json.get_eq_ok hverified]⟩

/-- The joined rows are readings of the stored ones. -/
structure JoinedFrom (db : Db) (inventory : Inventory) (programId : String) (j : Joined) :
    Prop where
  rows_ok : List.Forall₂ (fun c row => readCase c = .ok row) (casesOf db programId) j.rows
  runs_ok : List.Forall₂ (fun job run => runOf job = .ok run)
    ((gateJobs db programId).filter fun x => x.assessment.truthy) j.runs
  items_eq : j.items = candidateItems inventory programId (gateJobs db programId)
  universe_eq : j.universe_ = sortedSet (j.rows.flatMap CaseRow.identities)

theorem joinCoverage_eq_ok {db : Db} {inventory : Inventory} {programId : String} {j : Joined}
    (h : joinCoverage db inventory programId = .ok j) : JoinedFrom db inventory programId j := by
  unfold joinCoverage at h
  obtain ⟨runs, hruns, h⟩ := bind_eq_ok h
  obtain ⟨queued, -, h⟩ := bind_eq_ok h
  obtain ⟨fields, -, h⟩ := bind_eq_ok h
  obtain ⟨rows, hrows, h⟩ := bind_eq_ok h
  obtain rfl := Except.ok.inj h
  exact ⟨mapM_eq_ok hrows, mapM_eq_ok hruns, rfl, rfl⟩

omit [Unicode] in
theorem mem_casesOf {db : Db} {programId : String} {case : AuthorizationTestCase} :
    case ∈ casesOf db programId ↔ Stored db programId case := by
  simp [casesOf, Stored]

omit [Unicode] in
theorem mem_executed {db : Db} {programId : String} {job : ScanJob} :
    job ∈ (gateJobs db programId).filter (fun x => x.assessment.truthy) ↔
      Executed db programId job := by
  simp only [gateJobs, Executed, List.mem_filter, Bool.and_eq_true, beq_iff_eq, and_assoc]

namespace JoinedFrom

variable {db : Db} {inventory : Inventory} {programId : String} {j : Joined}

theorem row_of_stored (h : JoinedFrom db inventory programId j) {case : AuthorizationTestCase}
    (hc : Stored db programId case) : ∃ row ∈ j.rows, readCase case = .ok row :=
  exists_of_mem_forall₂' h.rows_ok (mem_casesOf.mpr hc)

theorem stored_of_row (h : JoinedFrom db inventory programId j) {row : CaseRow}
    (hr : row ∈ j.rows) : Stored db programId row.case ∧ readCase row.case = .ok row := by
  obtain ⟨case, hc, hread⟩ := exists_of_mem_forall₂ h.rows_ok hr
  rw [(readCase_eq_ok hread).1]
  exact ⟨mem_casesOf.mp hc, hread⟩

theorem run_of_executed (h : JoinedFrom db inventory programId j) {job : ScanJob}
    (hj : Executed db programId job) : ∃ run ∈ j.runs, run.job = job ∧ runOf job = .ok run := by
  obtain ⟨run, hr, hread⟩ := exists_of_mem_forall₂' h.runs_ok (mem_executed.mpr hj)
  exact ⟨run, hr, (runOf_eq_ok hread hj.2.2.2).1, hread⟩

theorem executed_of_run (h : JoinedFrom db inventory programId j) {run : Run}
    (hr : run ∈ j.runs) : Executed db programId run.job ∧ runOf run.job = .ok run := by
  obtain ⟨job, hj, hread⟩ := exists_of_mem_forall₂ h.runs_ok hr
  have hex := mem_executed.mp hj
  rw [(runOf_eq_ok hread hex.2.2.2).1]
  exact ⟨hex, hread⟩

/-- A matched row is a stored case that matches. -/
theorem mem_matchedRows (h : JoinedFrom db inventory programId j) {endpoint : ApiEndpoint}
    {row : CaseRow} (hr : row ∈ j.matchedRows endpoint) :
    row ∈ j.rows ∧ Matches endpoint row.case := by
  unfold Joined.matchedRows at hr
  obtain ⟨hr, hmatch⟩ := List.mem_filter.mp hr
  obtain ⟨hr, hreviewed⟩ := List.mem_filter.mp hr
  exact ⟨hr, row, (h.stored_of_row hr).2, hreviewed, hmatch⟩

theorem matchedRow_of_matches (h : JoinedFrom db inventory programId j) {endpoint : ApiEndpoint}
    {case : AuthorizationTestCase} (hc : Stored db programId case) (hm : Matches endpoint case) :
    ∃ row ∈ j.matchedRows endpoint, row.case = case ∧ readCase case = .ok row := by
  obtain ⟨row, hr, hread⟩ := h.row_of_stored hc
  obtain ⟨row', hread', hreviewed, hmatch⟩ := hm
  obtain rfl : row = row' := Except.ok.inj (hread.symm.trans hread')
  exact ⟨row, List.mem_filter.mpr ⟨List.mem_filter.mpr ⟨hr, hreviewed⟩, hmatch⟩,
    (readCase_eq_ok hread).1, hread⟩

theorem mem_attributed (h : JoinedFrom db inventory programId j) {endpoint : ApiEndpoint}
    {job : ScanJob} : (∃ run ∈ j.attributed endpoint, run.job = job) ↔
      Executed db programId job ∧ Exercises endpoint job := by
  unfold Joined.attributed Exercises
  constructor
  · rintro ⟨run, hr, rfl⟩
    obtain ⟨hr, hmatch⟩ := List.mem_filter.mp hr
    obtain ⟨hex, hread⟩ := h.executed_of_run hr
    rw [(runOf_eq_ok hread hex.2.2.2).2.2.1] at hmatch
    exact ⟨hex, hmatch⟩
  · rintro ⟨hex, hmatch⟩
    obtain ⟨run, hr, hjob, hread⟩ := h.run_of_executed hex
    refine ⟨run, List.mem_filter.mpr ⟨hr, ?_⟩, hjob⟩
    rwa [(runOf_eq_ok hread hex.2.2.2).2.2.1]

/-- The current runs of a row are the runs of the present specification of its case. -/
theorem mem_currentJobs (h : JoinedFrom db inventory programId j) {row : CaseRow}
    (hr : row ∈ j.rows) {job : ScanJob} :
    job ∈ currentJobs j.runs row ↔ Executed db programId job ∧ RanPresentSpec row.case job := by
  obtain ⟨-, hhash, -⟩ := readCase_eq_ok (h.stored_of_row hr).2
  unfold currentJobs Run.isCurrentFor RanPresentSpec
  rw [List.mem_map]
  constructor
  · rintro ⟨run, hrun, rfl⟩
    obtain ⟨hrun, hcurrent⟩ := List.mem_filter.mp hrun
    obtain ⟨hex, hread⟩ := h.executed_of_run hrun
    obtain ⟨-, hcase, -, hsnapshot, hverified⟩ := runOf_eq_ok hread hex.2.2.2
    simp only [Bool.and_eq_true, beq_iff_eq, Option.isSome_iff_exists] at hcurrent
    obtain ⟨hid, ⟨⟨-, hash, hsome⟩, hver⟩, hsame⟩ := hcurrent
    refine ⟨hex, by rw [hcase, hid], ⟨hash, by rw [hhash, hsome], ?_⟩, by rw [← hverified, hver]⟩
    rw [hsnapshot, hsame, hsome]
  · rintro ⟨hex, hcase, ⟨hash, hpresent, hsnapshot⟩, hverified⟩
    obtain ⟨run, hrun, hjob, hread⟩ := h.run_of_executed hex
    obtain ⟨-, hcase', -, hsnapshot', hverified'⟩ := runOf_eq_ok hread hex.2.2.2
    refine ⟨run, List.mem_filter.mpr ⟨hrun, ?_⟩, hjob⟩
    have hid : run.caseId = row.case.id := Except.ok.inj (hcase'.symm.trans hcase)
    have hrow : row.hash = some hash := Except.ok.inj (hhash.symm.trans hpresent)
    have hrunHash : run.snapshotHash = some hash := Except.ok.inj (hsnapshot'.symm.trans hsnapshot)
    simp [hid, hrow, hrunHash, hverified', hverified]

/-- The latest run of a row, in terms of the stored jobs. -/
theorem latest_eq_some (h : JoinedFrom db inventory programId j) {row : CaseRow}
    (hr : row ∈ j.rows) {job : ScanJob} (hl : latest (currentJobs j.runs row) = some job) :
    LatestCurrent db programId row.case job := by
  unfold latest at hl
  have hmem := List.argmax_mem hl
  refine ⟨(h.mem_currentJobs hr).mp (List.mem_filter.mp hmem).1, fun other hex hran => ?_⟩
  refine List.le_of_mem_argmax (List.mem_filter.mpr ⟨?_, hex.2.2.2⟩) hl
  exact (h.mem_currentJobs hr).mpr ⟨hex, hran⟩

theorem latest_eq_none (h : JoinedFrom db inventory programId j) {row : CaseRow}
    (hr : row ∈ j.rows) (hl : latest (currentJobs j.runs row) = none) {job : ScanJob}
    (hex : Executed db programId job) : ¬ RanPresentSpec row.case job := by
  intro hran
  unfold latest at hl
  rw [List.argmax_eq_none, List.filter_eq_nil_iff] at hl
  exact hl job ((h.mem_currentJobs hr).mpr ⟨hex, hran⟩) hex.2.2.2

end JoinedFrom

/-! ## One operation -/

theorem matchedCase_eq_ok {runs : List Run} {row : CaseRow} {m : MatchedCase}
    (h : matchedCase runs row = .ok m) :
    m.row = row ∧ m.latest = latest (currentJobs runs row) ∧
      ∀ job, m.latest = some job → job.assessment.truthy = true →
        m.status = job.assessment.field "status" ∧ reportedCells job.assessment = .ok m.cells := by
  unfold matchedCase at h
  obtain ⟨⟨status, reasons, cells⟩, hread, h⟩ := bind_eq_ok h
  obtain rfl := Except.ok.inj h
  refine ⟨rfl, rfl, fun job hjob hexecuted => ?_⟩
  dsimp only at hjob ⊢
  rw [hjob] at hread
  simp only [readLatest, Json.orElse, if_pos hexecuted] at hread
  obtain ⟨status', hstatus, hread⟩ := bind_eq_ok hread
  obtain ⟨reasons', -, hread⟩ := bind_eq_ok hread
  obtain ⟨reasons'', -, hread⟩ := bind_eq_ok hread
  obtain ⟨cells', hcells, hread⟩ := bind_eq_ok hread
  obtain ⟨rfl, -, rfl⟩ : status' = status ∧ reasons'' = reasons ∧ cells' = cells := by
    simpa using Except.ok.inj hread
  exact ⟨(Json.get_eq_ok hstatus).symm, hcells⟩

/-- What the report says about an operation, and what it was computed from. -/
structure OperationOf (j : Joined) (op : Operation) (matched : List MatchedCase) : Prop where
  matched_ok : List.Forall₂ (fun row m => matchedCase j.runs row = .ok m)
    (j.matchedRows op.endpoint) matched
  state_ok : operationState (j.candidates op.endpoint).unresolved matched = .ok op.state
  cases_eq : op.cases = matched.map (caseEntry j.queued)
  coverage_eq : op.identityCoverage = j.universe_.map (identityRow matched)
  candidates_eq : op.candidates = j.candidates op.endpoint

theorem operation_eq_ok {j : Joined} {endpoint : ApiEndpoint} {op : Operation}
    (h : j.operation endpoint = .ok op) :
    op.endpoint = endpoint ∧ ∃ matched, OperationOf j op matched := by
  unfold Joined.operation at h
  obtain ⟨matched, hmatched, h⟩ := bind_eq_ok h
  obtain ⟨state, hstate, h⟩ := bind_eq_ok h
  obtain rfl := Except.ok.inj h
  exact ⟨rfl, matched, mapM_eq_ok hmatched, hstate, rfl, rfl, rfl⟩

omit [Unicode] in
/-- A conclusive operation has only conclusive current runs, one for every matching
case, and no candidate. -/
theorem operationState_conclusive {flagged : Bool} {matched : List MatchedCase}
    (h : operationState flagged matched = .ok .conclusive) :
    flagged = false ∧ matched ≠ [] ∧
      ∀ m ∈ matched, m.executed = true ∧ m.status = .str "conclusive" := by
  unfold operationState at h
  dsimp only at h
  split at h
  · simp at h
  rename_i hflag
  split at h
  · simp at h
  rename_i hmatched
  split at h
  · split at h <;> simp at h
  split at h
  · rename_i hall
    simp only [Bool.and_eq_true, List.all_eq_true, List.mem_map, beq_iff_eq,
      forall_exists_index, and_imp, List.mem_filter] at hall
    refine ⟨by simpa using hflag, by simpa using hmatched, fun m hm => ⟨hall.2 m hm, ?_⟩⟩
    exact hall.1 m.status m hm (hall.2 m hm) rfl
  · cases hd : anyDefinite ((matched.filter MatchedCase.executed).map MatchedCase.status) with
    | error e => simp [hd, Except.map] at h
    | ok definite => cases definite <;> simp [hd, Except.map] at h

omit [Unicode] in
theorem operationState_flagged {matched : List MatchedCase} {state : OperationState}
    (h : operationState true matched = .ok state) : state = .violationCandidate :=
  (Except.ok.inj h).symm

/-! ## One identity -/

omit [Unicode] in
/-- The cells of an identity are all evaluated exactly when its row says so. -/
theorem ranRow_evaluated {identity : String} {declaring : ℕ} {ran : List Cell}
    (hne : ran ≠ []) (hle : ran.length ≤ declaring) :
    (ranRow identity declaring ran).state = "evaluated" ↔
      ran.length = declaring ∧ ∀ c ∈ ran, c.state = "evaluated" := by
  have hlen := List.length_filter_le (fun c : Cell => c.state == "evaluated") ran
  have hall : (ran.filter fun c : Cell => c.state == "evaluated").length = ran.length ↔
      ∀ c ∈ ran, c.state = "evaluated" := by
    rw [List.length_filter_eq_length_iff]
    simp
  rw [← hall]
  unfold ranRow
  dsimp only
  split
  · rename_i hnone
    have hnot : ∀ c ∈ ran, c.state ≠ "evaluated" := by
      simpa [List.filter_eq_nil_iff] using hnone
    rw [hnone, List.length_nil]
    have hpos : ran.length ≠ 0 := by simpa using hne
    constructor
    · intro h
      split at h
      · rename_i best hbest
        exact absurd h (hnot best (List.argmax_mem hbest))
      · simp at h
    · rintro ⟨-, h⟩
      exact absurd h.symm hpos
  · rename_i first rest hsome
    rw [← hsome]
    split
    · rename_i hd
      have : (ran.filter fun c : Cell => c.state == "evaluated").length = declaring := by
        simpa using hd
      simp only [true_iff]
      omega
    · rename_i hd
      have : (ran.filter fun c : Cell => c.state == "evaluated").length ≠ declaring := by
        simpa using hd
      simp only [String.reduceEq, false_iff]
      omega

omit [Unicode] in
/-- An identity is evaluated exactly when some matching case declares it, and every one
that does evaluated it. -/
theorem identityRow_evaluated {matched : List MatchedCase} {identity : String} :
    (identityRow matched identity).state = "evaluated" ↔
      (∃ m ∈ matched, identity ∈ m.row.identities) ∧
      ∀ m ∈ matched, identity ∈ m.row.identities →
        (m.cell identity).map Cell.state = some "evaluated" := by
  set cells := (matched.filter fun m => m.row.identities.contains identity).map fun m =>
    m.cell identity with hcells
  have hexists : (∃ m ∈ matched, identity ∈ m.row.identities) ↔ cells ≠ [] := by
    simp [hcells, List.filter_eq_nil_iff]
  have hforall : (∀ m ∈ matched, identity ∈ m.row.identities →
      (m.cell identity).map Cell.state = some "evaluated") ↔
        ∀ c ∈ cells, c.map Cell.state = some "evaluated" := by
    constructor
    · intro h c hc
      obtain ⟨m, hm, rfl⟩ := List.mem_map.mp hc
      obtain ⟨hm, hi⟩ := List.mem_filter.mp hm
      exact h m hm (by simpa using hi)
    · intro h m hm hi
      exact h _ (List.mem_map_of_mem (List.mem_filter.mpr ⟨hm, by simpa using hi⟩))
  rw [hexists, hforall]
  unfold identityRow
  dsimp only
  rw [← hcells]
  split
  · rename_i hempty
    simp [List.isEmpty_iff.mp hempty]
  rename_i hne
  split
  · rename_i hnone
    constructor
    · intro h
      simp at h
    · rintro ⟨-, h⟩
      obtain ⟨c, hc⟩ := List.exists_mem_of_ne_nil cells (by simpa using hne)
      obtain ⟨cell, rfl, -⟩ := Option.map_eq_some_iff.mp (h c hc)
      have hmem : cell ∈ cells.reduceOption := List.reduceOption_mem_iff.mpr hc
      rw [List.isEmpty_iff.mp hnone] at hmem
      simp at hmem
  · rename_i hsome
    rw [ranRow_evaluated (by simpa using hsome) (List.reduceOption_length_le _),
      List.reduceOption_length_eq_iff]
    constructor
    · rintro ⟨hall, hstates⟩
      refine ⟨by simpa using hne, fun c hc => ?_⟩
      obtain ⟨cell, rfl⟩ := Option.isSome_iff_exists.mp (hall c hc)
      rw [Option.map_some, hstates cell (List.reduceOption_mem_iff.mpr hc)]
    · rintro ⟨-, hall⟩
      refine ⟨fun c hc => ?_, fun cell hcell => ?_⟩
      · obtain ⟨cell, rfl, -⟩ := Option.map_eq_some_iff.mp (hall c hc)
        rfl
      · have := hall _ (List.reduceOption_mem_iff.mp hcell)
        simpa using this

/-- A case evaluated an identity exactly when its latest current run did. -/
theorem cell_evaluated {m : MatchedCase} {identity : String} {job : ScanJob}
    (hlatest : m.latest = some job) (hcells : reportedCells job.assessment = .ok m.cells) :
    (m.cell identity).map Cell.state = some "evaluated" ↔ EvaluatedIn job identity := by
  have hexec : m.executed = true := by rw [MatchedCase.executed, hlatest, Option.isSome_some]
  unfold MatchedCase.cell EvaluatedIn
  rw [if_pos hexec]
  constructor
  · intro h
    refine ⟨m.cells, hcells, ?_⟩
    cases hl : m.cells.reverse.lookup identity with
    | none => simp [hl] at h
    | some cell => simpa [hl] using h
  · rintro ⟨cells, hcells', h⟩
    obtain rfl : m.cells = cells := Except.ok.inj (hcells.symm.trans hcells')
    obtain ⟨cell, hl, hstate⟩ := Option.map_eq_some_iff.mp h
    simp [hl, hstate]

omit [Unicode] in
theorem identityRow_identityId (matched : List MatchedCase) (identity : String) :
    (identityRow matched identity).identityId = identity := by
  unfold identityRow ranRow
  dsimp only
  split
  · rfl
  split
  · rfl
  split
  · split <;> rfl
  · split <;> rfl

/-! ## Candidates -/

omit [Unicode] in
theorem candidatesOf_unresolved {items : List (String × String)} {jobId : String} :
    (candidatesOf items jobId).unresolved = true ↔
      ∃ p ∈ items, p.1 = jobId ∧ (isOpenCandidate p.2 = true ∨ p.2 = "promoted") := by
  simp only [Candidates.unresolved, candidatesOf, Bool.or_eq_true, bne_iff_ne, ne_eq,
    List.countP_eq_zero, Bool.and_eq_true, beq_iff_eq, not_and, not_forall, not_not]
  constructor
  · rintro (⟨p, hp, hid, hopen⟩ | ⟨p, hp, hid, hpromoted⟩)
    · exact ⟨p, hp, hid, .inl hopen⟩
    · exact ⟨p, hp, hid, .inr hpromoted⟩
  · rintro ⟨p, hp, hid, hopen | hpromoted⟩
    · exact .inl ⟨p, hp, hid, hopen⟩
    · exact .inr ⟨p, hp, hid, hpromoted⟩

theorem candidates_unresolved {j : Joined} {endpoint : ApiEndpoint} :
    (j.candidates endpoint).unresolved = true ↔
      ∃ run ∈ j.attributed endpoint, (candidatesOf j.items run.job.id).unresolved = true := by
  simp only [Joined.candidates, Candidates.unresolved, Bool.or_eq_true, bne_iff_ne, ne_eq,
    List.sum_eq_zero_iff_forall_eq_nat, List.mem_map, not_forall]
  constructor
  · rintro (⟨n, ⟨⟨c, ⟨run, hrun, rfl⟩, rfl⟩, hn⟩⟩ | ⟨n, ⟨⟨c, ⟨run, hrun, rfl⟩, rfl⟩, hn⟩⟩)
    · exact ⟨run, hrun, .inl hn⟩
    · exact ⟨run, hrun, .inr hn⟩
  · rintro ⟨run, hrun, hn | hn⟩
    · exact .inl ⟨_, ⟨_, ⟨run, hrun, rfl⟩, rfl⟩, hn⟩
    · exact .inr ⟨_, ⟨_, ⟨run, hrun, rfl⟩, rfl⟩, hn⟩

omit [Unicode] in
theorem mem_candidateItems {inventory : Inventory} {programId : String} {jobs : List ScanJob}
    {p : String × String} :
    p ∈ candidateItems inventory programId jobs ↔
      ∃ item ∈ inventory.scanItems.rows, item.programId = programId ∧ item.source = "vardrgate" ∧
        item.jobId = some p.1 ∧ p.1 ∈ jobs.map ScanJob.id ∧ textOr item.status "new" = p.2 := by
  unfold candidateItems
  rw [List.mem_filterMap]
  refine exists_congr fun item => and_congr_right fun _ => ?_
  cases item.jobId with
  | none => simp
  | some jobId =>
    simp only [Option.ite_none_right_eq_some, Bool.and_eq_true, beq_iff_eq, List.contains_iff_mem,
      Option.some.injEq, and_assoc]
    constructor
    · rintro ⟨hprogram, hsource, hjob, rfl⟩
      exact ⟨hprogram, hsource, rfl, hjob, rfl⟩
    · rintro ⟨hprogram, hsource, rfl, hjob, hstatus⟩
      exact ⟨hprogram, hsource, hjob, by rw [hstatus]⟩

namespace JoinedFrom

variable {db : Db} {inventory : Inventory} {programId : String} {j : Joined}

/-- An operation is flagged exactly when a run that exercised it left an unresolved
candidate. -/
theorem flagged_iff (h : JoinedFrom db inventory programId j) {endpoint : ApiEndpoint} :
    (j.candidates endpoint).unresolved = true ↔
      ∃ job, Executed db programId job ∧ Exercises endpoint job ∧
        Unresolved inventory programId job := by
  rw [candidates_unresolved]
  constructor
  · rintro ⟨run, hrun, hun⟩
    obtain ⟨hex, hexercises⟩ := h.mem_attributed.mp ⟨run, hrun, rfl⟩
    obtain ⟨p, hp, hid, hstatus⟩ := candidatesOf_unresolved.mp hun
    rw [h.items_eq] at hp
    obtain ⟨item, hitem, hprogram, hsource, hjob, -, htext⟩ := mem_candidateItems.mp hp
    exact ⟨run.job, hex, hexercises, item, hitem, hprogram, hsource, hid ▸ hjob, htext ▸ hstatus⟩
  · rintro ⟨job, hex, hexercises, item, hitem, hprogram, hsource, hjob, hstatus⟩
    obtain ⟨run, hrun, rfl⟩ := h.mem_attributed.mpr ⟨hex, hexercises⟩
    refine ⟨run, hrun, candidatesOf_unresolved.mpr
      ⟨(run.job.id, textOr item.status "new"), ?_, rfl, hstatus⟩⟩
    rw [h.items_eq]
    refine mem_candidateItems.mpr ⟨item, hitem, hprogram, hsource, hjob, ?_, rfl⟩
    exact List.mem_map_of_mem (List.mem_filter.mp (mem_executed.mpr hex)).1

end JoinedFrom

/-! ## Nothing is lost -/

namespace JoinedFrom

variable {db : Db} {inventory : Inventory} {programId : String} {j : Joined}

/-- A row is the reading of the stored case with its id. -/
theorem row_eq (h : JoinedFrom db inventory programId j) {row : CaseRow} (hr : row ∈ j.rows)
    {case : AuthorizationTestCase} (hc : Stored db programId case)
    (hid : row.case.id = case.id) : row.case = case ∧ readCase case = .ok row := by
  obtain ⟨hstored, hread⟩ := h.stored_of_row hr
  have heq : row.case = case := Table.eq_of_key hstored.1 hc.1 hid
  exact ⟨heq, heq ▸ hread⟩

/-- A stored case is listed as unmatched exactly when it matches no operation. -/
theorem mem_unmatched (h : JoinedFrom db inventory programId j) {endpoints : List ApiEndpoint}
    {case : AuthorizationTestCase} (hc : Stored db programId case) :
    (∃ u ∈ j.unmatched endpoints, u.caseId = case.id) ↔ ¬ ∃ e ∈ endpoints, Matches e case := by
  unfold Joined.unmatched
  constructor
  · rintro ⟨u, hu, hid⟩ ⟨e, he, hmatch⟩
    rcases List.mem_append.mp hu with hu | hu
    · obtain ⟨row, hrow, rfl⟩ := List.mem_map.mp hu
      obtain ⟨-, hnone⟩ := List.mem_filter.mp hrow
      obtain ⟨m, hm, rfl, -⟩ := h.matchedRow_of_matches hc hmatch
      have hany : (endpoints.any fun e => (j.matchedRows e).any fun m =>
          m.case.id == row.case.id) = true :=
        List.any_eq_true.mpr ⟨e, he, List.any_eq_true.mpr ⟨m, hm, beq_iff_eq.mpr hid.symm⟩⟩
      rw [hany] at hnone
      simp at hnone
    · obtain ⟨row, hrow, rfl⟩ := List.mem_map.mp hu
      obtain ⟨hrow, hnot⟩ := List.mem_filter.mp hrow
      obtain ⟨row', hread', hreviewed, -⟩ := hmatch
      obtain ⟨-, hread⟩ := h.row_eq hrow hc hid
      obtain rfl : row = row' := Except.ok.inj (hread.symm.trans hread')
      simp [hreviewed] at hnot
  · intro hnone
    obtain ⟨row, hrow, hread⟩ := h.row_of_stored hc
    have hcase := (readCase_eq_ok hread).1
    cases hreviewed : row.reviewed with
    | true =>
      refine ⟨_, List.mem_append_left _ (List.mem_map_of_mem (List.mem_filter.mpr
        ⟨List.mem_filter.mpr ⟨hrow, hreviewed⟩, ?_⟩)), congrArg AuthorizationTestCase.id hcase⟩
      rw [Bool.not_eq_true', Bool.eq_false_iff]
      intro hany
      obtain ⟨e, he, hany⟩ := List.any_eq_true.mp hany
      obtain ⟨m, hm, hid⟩ := List.any_eq_true.mp hany
      obtain ⟨hmrow, hmatch⟩ := h.mem_matchedRows hm
      rw [beq_iff_eq, hcase] at hid
      rw [(h.row_eq hmrow hc hid).1] at hmatch
      exact hnone ⟨e, he, hmatch⟩
    | false =>
      exact ⟨_, List.mem_append_right _ (List.mem_map_of_mem (List.mem_filter.mpr
        ⟨hrow, by rw [hreviewed, Bool.not_false]⟩)), congrArg AuthorizationTestCase.id hcase⟩

/-- An executed run is listed as unattributed exactly when it exercised no operation. -/
theorem mem_unattributed (h : JoinedFrom db inventory programId j)
    {endpoints : List ApiEndpoint} {job : ScanJob} (hj : Executed db programId job) :
    (∃ u ∈ j.unattributed endpoints, u.jobId = job.id) ↔
      ¬ ∃ e ∈ endpoints, Exercises e job := by
  unfold Joined.unattributed
  constructor
  · rintro ⟨u, hu, hid⟩ ⟨e, he, hexercises⟩
    obtain ⟨run, hrun, rfl⟩ := List.mem_map.mp hu
    obtain ⟨-, hnone⟩ := List.mem_filter.mp hrun
    obtain ⟨a, ha, rfl⟩ := h.mem_attributed.mpr ⟨hj, hexercises⟩
    have hany : (endpoints.any fun e => (j.attributed e).any fun a =>
        a.job.id == run.job.id) = true :=
      List.any_eq_true.mpr ⟨e, he, List.any_eq_true.mpr ⟨a, ha, beq_iff_eq.mpr hid.symm⟩⟩
    rw [hany] at hnone
    simp at hnone
  · intro hnone
    obtain ⟨run, hrun, hjob, -⟩ := h.run_of_executed hj
    refine ⟨_, List.mem_map_of_mem (List.mem_filter.mpr ⟨hrun, ?_⟩), congrArg ScanJob.id hjob⟩
    rw [Bool.not_eq_true', Bool.eq_false_iff]
    intro hany
    obtain ⟨e, he, hany⟩ := List.any_eq_true.mp hany
    obtain ⟨a, ha, hid⟩ := List.any_eq_true.mp hany
    obtain ⟨hex, hexercises⟩ := h.mem_attributed.mp ⟨a, ha, rfl⟩
    rw [beq_iff_eq, hjob] at hid
    have heq : a.job = job := Table.eq_of_key hex.1 hj.1 hid
    exact hnone ⟨e, he, heq ▸ hexercises⟩

end JoinedFrom

omit [Unicode] in
/-- Every operation is in exactly one state. -/
theorem sum_stateCounts (operations : List Operation) :
    ((operationStates.map fun s =>
      (s, operations.countP fun o => o.state == s)).map Prod.snd).sum = operations.length := by
  simp only [operationStates, List.map_cons, List.map_nil, List.sum_cons, List.sum_nil]
  induction operations with
  | nil => rfl
  | cons o os ih =>
    simp only [List.countP_cons, List.length_cons]
    cases o.state <;> simp <;> omega

/-! ## Soundness of one operation -/

omit [Unicode] in
theorem recency_inj {db : Db} {programId : String} {a b : ScanJob} (ha : Executed db programId a)
    (hb : Executed db programId b) (h : recency a = recency b) : a = b := by
  refine Table.eq_of_key ha.1 hb.1 ?_
  have h2 := congrArg (fun x : ℤ ×ₗ ℤ ×ₗ String => (ofLex (ofLex x).2).2) h
  exact h2

/-- A case has one latest run. -/
theorem LatestCurrent.unique {db : Db} {programId : String} {case : AuthorizationTestCase}
    {a b : ScanJob} (ha : LatestCurrent db programId case a)
    (hb : LatestCurrent db programId case b) : a = b :=
  recency_inj ha.1.1 hb.1.1
    (le_antisymm (hb.2 a ha.1.1 ha.1.2) (ha.2 b hb.1.1 hb.1.2))

namespace OperationOf

variable {db : Db} {inventory : Inventory} {programId : String} {j : Joined} {op : Operation}
  {matched : List MatchedCase}

theorem row_of_mem (h : OperationOf j op matched) {m : MatchedCase} (hm : m ∈ matched) :
    m.row ∈ j.matchedRows op.endpoint ∧ matchedCase j.runs m.row = .ok m := by
  obtain ⟨row, hrow, hmatched⟩ := exists_of_mem_forall₂ h.matched_ok hm
  rw [(matchedCase_eq_ok hmatched).1]
  exact ⟨hrow, hmatched⟩

/-- A matching stored case is among the matched ones. -/
theorem mem_of_matches (h : OperationOf j op matched) (hj : JoinedFrom db inventory programId j)
    {case : AuthorizationTestCase} (hc : Stored db programId case)
    (hmatch : Matches op.endpoint case) :
    ∃ m ∈ matched, m.row.case = case ∧ m.row ∈ j.rows ∧ matchedCase j.runs m.row = .ok m := by
  obtain ⟨row, hrow, hcase, -⟩ := hj.matchedRow_of_matches hc hmatch
  obtain ⟨m, hm, hmatched⟩ := exists_of_mem_forall₂' h.matched_ok hrow
  have hrowEq := (matchedCase_eq_ok hmatched).1
  refine ⟨m, hm, by rw [hrowEq, hcase], ?_, by rw [hrowEq]; exact hmatched⟩
  rw [hrowEq]
  exact (hj.mem_matchedRows hrow).1

theorem matches_of_mem (h : OperationOf j op matched) (hj : JoinedFrom db inventory programId j)
    {m : MatchedCase} (hm : m ∈ matched) :
    m.row ∈ j.rows ∧ Stored db programId m.row.case ∧ Matches op.endpoint m.row.case := by
  obtain ⟨hrow, hmatch⟩ := hj.mem_matchedRows (h.row_of_mem hm).1
  exact ⟨hrow, (hj.stored_of_row hrow).1, hmatch⟩

/-- The case entries of the report are the matching stored cases. -/
theorem entry_iff (h : OperationOf j op matched) (hj : JoinedFrom db inventory programId j)
    {case : AuthorizationTestCase} (hc : Stored db programId case) :
    (∃ e ∈ op.cases, e.caseId = case.id) ↔ Matches op.endpoint case := by
  rw [h.cases_eq]
  constructor
  · rintro ⟨e, he, hid⟩
    obtain ⟨m, hm, rfl⟩ := List.mem_map.mp he
    obtain ⟨hrow, -, hmatch⟩ := h.matches_of_mem hj hm
    rwa [(hj.row_eq hrow hc hid).1] at hmatch
  · intro hmatch
    obtain ⟨m, hm, hcase, -, -⟩ := h.mem_of_matches hj hc hmatch
    exact ⟨_, List.mem_map_of_mem hm, congrArg AuthorizationTestCase.id hcase⟩

/-- The latest run of a matched case, with what was read from it. -/
theorem latest_of_executed (h : OperationOf j op matched) (hj : JoinedFrom db inventory programId j)
    {m : MatchedCase} (hm : m ∈ matched) (hexec : m.executed = true) :
    ∃ job, m.latest = some job ∧ LatestCurrent db programId m.row.case job ∧
      m.status = job.assessment.field "status" ∧ reportedCells job.assessment = .ok m.cells := by
  obtain ⟨job, hjob⟩ := Option.isSome_iff_exists.mp hexec
  obtain ⟨-, hlatest, hread⟩ := matchedCase_eq_ok (h.row_of_mem hm).2
  have hcurrent := hj.latest_eq_some (h.matches_of_mem hj hm).1 (hlatest ▸ hjob)
  exact ⟨job, hjob, hcurrent, hread job hjob hcurrent.1.1.2.2.2⟩

/-- A conclusive operation has a conclusive latest run for each of its cases. -/
theorem conclusive (h : OperationOf j op matched) (hj : JoinedFrom db inventory programId j)
    (hc : op.state = .conclusive) :
    (∃ case, Stored db programId case ∧ Matches op.endpoint case) ∧
    (∀ case, Stored db programId case → Matches op.endpoint case → ∃ job,
      LatestCurrent db programId case job ∧ job.assessment.field "status" = .str "conclusive") ∧
    ∀ job, Executed db programId job → Exercises op.endpoint job →
      ¬ Unresolved inventory programId job := by
  have hstate := h.state_ok
  rw [hc] at hstate
  obtain ⟨hflag, hne, hall⟩ := operationState_conclusive hstate
  refine ⟨?_, fun case hstored hmatch => ?_, fun job hex hexercises hun => ?_⟩
  · obtain ⟨m, hm⟩ := List.exists_mem_of_ne_nil _ hne
    obtain ⟨-, hstored, hmatch⟩ := h.matches_of_mem hj hm
    exact ⟨_, hstored, hmatch⟩
  · obtain ⟨m, hm, rfl, -, -⟩ := h.mem_of_matches hj hstored hmatch
    obtain ⟨hexec, hstatus⟩ := hall m hm
    obtain ⟨job, -, hlatest, hread, -⟩ := h.latest_of_executed hj hm hexec
    exact ⟨job, hlatest, hread ▸ hstatus⟩
  · rw [hj.flagged_iff.mpr ⟨job, hex, hexercises, hun⟩] at hflag
    simp at hflag

theorem violation (h : OperationOf j op matched) (hj : JoinedFrom db inventory programId j)
    {job : ScanJob} (hex : Executed db programId job) (hexercises : Exercises op.endpoint job)
    (hun : Unresolved inventory programId job) : op.state = .violationCandidate := by
  have hstate := h.state_ok
  rw [hj.flagged_iff.mpr ⟨job, hex, hexercises, hun⟩] at hstate
  exact operationState_flagged hstate

/-- A matched case evaluated an identity exactly when its latest current run did. -/
theorem cell_iff (h : OperationOf j op matched) (hj : JoinedFrom db inventory programId j)
    {m : MatchedCase} (hm : m ∈ matched) {identity : String} :
    (m.cell identity).map Cell.state = some "evaluated" ↔
      ∃ job, LatestCurrent db programId m.row.case job ∧ EvaluatedIn job identity := by
  cases hexec : m.executed with
  | true =>
    obtain ⟨job, hjob, hlatest, -, hcells⟩ := h.latest_of_executed hj hm hexec
    rw [cell_evaluated hjob hcells]
    constructor
    · exact fun he => ⟨job, hlatest, he⟩
    · rintro ⟨job', hlatest', he⟩
      rwa [hlatest'.unique hlatest] at he
  | false =>
    have hnone : m.latest = none := by
      rw [← Option.not_isSome_iff_eq_none]
      exact Bool.eq_false_iff.mp hexec
    obtain ⟨-, hlatest, -⟩ := matchedCase_eq_ok (h.row_of_mem hm).2
    constructor
    · intro hcell
      simp [MatchedCase.cell, hexec] at hcell
    · rintro ⟨job, ⟨⟨hex, hran⟩, -⟩, -⟩
      exact absurd hran (hj.latest_eq_none (h.matches_of_mem hj hm).1 (hlatest ▸ hnone) hex)

theorem declares_iff (h : OperationOf j op matched) (hj : JoinedFrom db inventory programId j)
    {m : MatchedCase} (hm : m ∈ matched) {identity : String} :
    Declares m.row.case identity ↔ identity ∈ m.row.identities := by
  obtain ⟨-, -, hids⟩ := readCase_eq_ok (hj.stored_of_row (h.matches_of_mem hj hm).1).2
  unfold Declares
  constructor
  · rintro ⟨ids, hids', hmem⟩
    rwa [← Except.ok.inj (hids.symm.trans hids')] at hmem
  · exact fun hmem => ⟨_, hids, hmem⟩

/-- An identity is evaluated for an operation exactly when some matching case declares it
and the latest current run of every one that does has evaluated it. -/
theorem evaluated_iff (h : OperationOf j op matched) (hj : JoinedFrom db inventory programId j)
    {identity : String} :
    (∃ r ∈ op.identityCoverage, r.identityId = identity ∧ r.state = "evaluated") ↔
      (∃ case, Stored db programId case ∧ Matches op.endpoint case ∧ Declares case identity) ∧
      ∀ case, Stored db programId case → Matches op.endpoint case → Declares case identity →
        ∃ job, LatestCurrent db programId case job ∧ EvaluatedIn job identity := by
  have hrow : (∃ r ∈ op.identityCoverage, r.identityId = identity ∧ r.state = "evaluated") ↔
      identity ∈ j.universe_ ∧ (identityRow matched identity).state = "evaluated" := by
    rw [h.coverage_eq]
    constructor
    · rintro ⟨r, hr, hid, hstate⟩
      obtain ⟨i, hi, rfl⟩ := List.mem_map.mp hr
      rw [identityRow_identityId] at hid
      exact hid ▸ ⟨hi, hstate⟩
    · rintro ⟨hi, hstate⟩
      exact ⟨_, List.mem_map_of_mem hi, identityRow_identityId matched identity, hstate⟩
  rw [hrow, identityRow_evaluated]
  constructor
  · rintro ⟨-, ⟨m, hm, hdeclares⟩, hall⟩
    obtain ⟨-, hstored, hmatch⟩ := h.matches_of_mem hj hm
    refine ⟨⟨_, hstored, hmatch, (h.declares_iff hj hm).mpr hdeclares⟩, ?_⟩
    intro case hc hmatches hdecl
    obtain ⟨m', hm', rfl, -, -⟩ := h.mem_of_matches hj hc hmatches
    exact (h.cell_iff hj hm').mp (hall m' hm' ((h.declares_iff hj hm').mp hdecl))
  · rintro ⟨⟨case, hc, hmatches, hdecl⟩, hall⟩
    obtain ⟨m, hm, rfl, hmrow, -⟩ := h.mem_of_matches hj hc hmatches
    have hdeclares := (h.declares_iff hj hm).mp hdecl
    refine ⟨?_, ⟨m, hm, hdeclares⟩, fun m' hm' hdeclares' => ?_⟩
    · rw [hj.universe_eq, mem_sortedSet]
      exact List.mem_flatMap.mpr ⟨m.row, hmrow, hdeclares⟩
    · obtain ⟨-, hstored, hmatch⟩ := h.matches_of_mem hj hm'
      exact (h.cell_iff hj hm').mpr
        (hall _ hstored hmatch ((h.declares_iff hj hm').mpr hdeclares'))

end OperationOf

end VardrMap
