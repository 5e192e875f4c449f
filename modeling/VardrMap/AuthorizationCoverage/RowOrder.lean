import VardrMap.AuthorizationCoverage.Soundness
import VardrMap.Lib.Coupled

/-!
# The report and the order of the rows

A query without an order returns rows in any order. Endpoints and cases are sorted by
keys that name them; runs and candidates are only counted or compared by such a key. So
the report of a reordered database has the same operations in the same states.
-/
namespace VardrMap
open Lib

/-! ## Reordered databases -/

/-- The same rows in another order, as far as coverage reads them. -/
structure Reordered (db db' : Db) (inventory inventory' : Inventory) : Prop where
  testCases : db.testCases.rows.Perm db'.testCases.rows
  jobs : db.jobs.rows.Perm db'.jobs.rows
  endpoints : inventory.endpoints.rows.Perm inventory'.endpoints.rows
  exchanges : inventory.exchanges.rows.Perm inventory'.exchanges.rows
  scanItems : inventory.scanItems.rows.Perm inventory'.scanItems.rows
  evidence : inventory.evidence.rows.Perm inventory'.evidence.rows

namespace Reordered

variable {db db' : Db} {inventory inventory' : Inventory}

theorem endpointsOf_eq (h : Reordered db db' inventory inventory') (programId : String) :
    endpointsOf inventory programId = endpointsOf inventory' programId := by
  refine sortBy_eq_of_perm (h.endpoints.filter _) fun a ha b hb hab => ?_
  refine Table.eq_of_key (List.mem_filter.mp ha).1 (List.mem_filter.mp hb).1 ?_
  exact congrArg (fun x : String ×ₗ String ×ₗ String ×ₗ String =>
    (ofLex (ofLex (ofLex x).2).2).2) hab

theorem casesOf_eq (h : Reordered db db' inventory inventory') (programId : String) :
    casesOf db programId = casesOf db' programId := by
  refine sortBy_eq_of_perm (h.testCases.filter _) fun a ha b hb hab => ?_
  refine Table.eq_of_key (List.mem_filter.mp ha).1 (List.mem_filter.mp hb).1 ?_
  exact congrArg (fun x : ℤ ×ₗ String => (ofLex x).2) hab

theorem gateJobs_perm (h : Reordered db db' inventory inventory') (programId : String) :
    (gateJobs db programId).Perm (gateJobs db' programId) :=
  h.jobs.filter _

theorem candidateItems_perm (h : Reordered db db' inventory inventory') (programId : String) :
    (candidateItems inventory programId (gateJobs db programId)).Perm
      (candidateItems inventory' programId (gateJobs db' programId)) := by
  have hids : ∀ id, ((gateJobs db programId).map ScanJob.id).contains id =
      ((gateJobs db' programId).map ScanJob.id).contains id := by
    intro id
    rw [Bool.eq_iff_iff, List.contains_iff_mem, List.contains_iff_mem]
    exact ((h.gateJobs_perm programId).map ScanJob.id).mem_iff
  unfold candidateItems
  simp only [hids]
  exact h.scanItems.filterMap _

end Reordered

variable [Unicode]

/-! ## Reordered joins -/

/-- Two joins with the same rows and the same runs and candidates in another order. -/
structure Joined.SameRows (j j' : Joined) : Prop where
  rows_eq : j.rows = j'.rows
  runs_perm : j.runs.Perm j'.runs
  items_perm : j.items.Perm j'.items
  universe_eq : j.universe_ = j'.universe_

theorem joinCoverage_reordered {db db' : Db} {inventory inventory' : Inventory}
    {programId : String} {j : Joined} (h : Reordered db db' inventory inventory')
    (hj : joinCoverage db inventory programId = .ok j) :
    ∃ j', joinCoverage db' inventory' programId = .ok j' ∧ j.SameRows j' := by
  unfold joinCoverage at hj
  obtain ⟨runs, hruns, hj⟩ := bind_eq_ok hj
  obtain ⟨queued, hqueued, hj⟩ := bind_eq_ok hj
  obtain ⟨fields, hfields, hj⟩ := bind_eq_ok hj
  obtain ⟨rows, hrows, hj⟩ := bind_eq_ok hj
  obtain rfl := Except.ok.inj hj
  obtain ⟨runs', hruns', hperm⟩ :=
    (Coupled.mapM_perm ((h.gateJobs_perm programId).filter _)).exists_ok hruns
  obtain ⟨queued', hqueued', -⟩ :=
    (Coupled.mapM_perm ((h.gateJobs_perm programId).filter _)).exists_ok hqueued
  obtain ⟨fields', hfields', -⟩ := (Coupled.mapM_perm (h.exchanges.filter _)).exists_ok hfields
  rw [h.casesOf_eq] at hrows
  apply Exists.intro
  apply And.intro
  · unfold joinCoverage
    dsimp only
    rw [hruns', hqueued', hfields', hrows]
    rfl
  · exact ⟨rfl, hperm, h.candidateItems_perm programId, rfl⟩

namespace Joined.SameRows

variable {db : Db} {inventory : Inventory} {programId : String} {j j' : Joined}

theorem matchedRows_eq (h : j.SameRows j') (endpoint : ApiEndpoint) :
    j.matchedRows endpoint = j'.matchedRows endpoint := by
  rw [Joined.matchedRows, Joined.matchedRows, h.rows_eq]

theorem attributed_perm (h : j.SameRows j') (endpoint : ApiEndpoint) :
    (j.attributed endpoint).Perm (j'.attributed endpoint) :=
  h.runs_perm.filter _

omit [Unicode] in
theorem candidatesOf_eq (h : j.SameRows j') (jobId : String) :
    candidatesOf j.items jobId = candidatesOf j'.items jobId := by
  unfold candidatesOf
  rw [h.items_perm.countP_eq, h.items_perm.countP_eq, h.items_perm.countP_eq]

theorem candidates_eq (h : j.SameRows j') (endpoint : ApiEndpoint) :
    j.candidates endpoint = j'.candidates endpoint := by
  have hall : ((j.attributed endpoint).map fun r => candidatesOf j.items r.job.id).Perm
      ((j'.attributed endpoint).map fun r => candidatesOf j'.items r.job.id) := by
    simp only [h.candidatesOf_eq]
    exact (h.attributed_perm endpoint).map _
  unfold Joined.candidates
  dsimp only
  rw [(hall.map Candidates.opened).sum_nat, (hall.map Candidates.promoted).sum_nat,
    (hall.map Candidates.falsePositive).sum_nat]

/-- The runs of a case are read the same. -/
theorem matchedCase_eq (h : j.SameRows j') (hj : JoinedFrom db inventory programId j)
    {row : CaseRow} (hr : row ∈ j.rows) : matchedCase j.runs row = matchedCase j'.runs row := by
  have hperm : (currentJobs j.runs row).Perm (currentJobs j'.runs row) :=
    (h.runs_perm.filter _).map _
  have hlatest : latest (currentJobs j.runs row) = latest (currentJobs j'.runs row) := by
    refine argmax_eq_of_perm (hperm.filter _) fun a ha b hb hab => ?_
    exact recency_inj ((hj.mem_currentJobs hr).mp (List.mem_filter.mp ha).1).1
      ((hj.mem_currentJobs hr).mp (List.mem_filter.mp hb).1).1 hab
  have hstale : staleCount j.runs row = staleCount j'.runs row := h.runs_perm.countP_eq _
  unfold matchedCase
  rw [hlatest, hstale]

end Joined.SameRows

/-- Two reports about an operation that agree on its states and candidates. -/
structure Operation.SameStates (op op' : Operation) : Prop where
  endpoint_eq : op.endpoint = op'.endpoint
  state_eq : op.state = op'.state
  coverage_eq : op.identityCoverage = op'.identityCoverage
  candidates_eq : op.candidates = op'.candidates

theorem operation_reordered {db : Db} {inventory : Inventory} {programId : String}
    {j j' : Joined} (h : j.SameRows j') (hj : JoinedFrom db inventory programId j)
    {endpoint : ApiEndpoint} {op : Operation} (hop : j.operation endpoint = .ok op) :
    ∃ op', j'.operation endpoint = .ok op' ∧ op.SameStates op' := by
  unfold Joined.operation at hop
  obtain ⟨matched, hmatched, hop⟩ := bind_eq_ok hop
  obtain ⟨state, hstate, hop⟩ := bind_eq_ok hop
  obtain rfl := Except.ok.inj hop
  have hmatched' : (j'.matchedRows endpoint).mapM (matchedCase j'.runs) = .ok matched := by
    rw [← h.matchedRows_eq, ← hmatched]
    exact mapM_congr fun row hrow => (h.matchedCase_eq hj (hj.mem_matchedRows hrow).1).symm
  rw [h.candidates_eq] at hstate
  apply Exists.intro
  apply And.intro
  · unfold Joined.operation
    rw [hmatched']
    dsimp only [bind, Except.bind]
    rw [hstate]
    rfl
  · exact ⟨rfl, rfl, by rw [h.universe_eq], h.candidates_eq endpoint⟩

end VardrMap
