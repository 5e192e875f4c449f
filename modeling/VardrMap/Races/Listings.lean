import VardrMap.Changes.Endings
import VardrMap.Lib.Clients

/-!
# The pending listing among other calls

A listing of pending jobs, statement by statement, with claims, status changes and
finalizations of other clients in between. It reads the pending jobs and then their parents,
and fails the jobs whose parent failed or is gone; then it reads the test cases, and fails the
jobs whose case is gone. It takes no lock, and it updates a job by its identifier, whatever
has been stored since. The other calls read again under the locks of the engagement and of
the job, so that their last statement is the call itself on what is stored then.
-/
namespace VardrMap
open Lib

/-- The listing lets the job through. -/
def Listing.isEligible : Listing → Bool
  | eligible => true
  | _ => false

/-- The statuses that a job ends with. -/
def JobStatus.settled : JobStatus → Bool
  | done | failed => true
  | pending | running => false

/-- A patch keeps a status that the job ended with. -/
theorem Patched.settled {db : Db} {j j' : ScanJob} (h : Patched db j j')
    (hsettled : j.status.settled = true) : j'.status = j.status := by
  by_contra hne
  have hmem := (h.moved hne).1
  cases hstatus : j.status <;>
    simp [hstatus, JobStatus.patchable, JobStatus.settled] at hmem hsettled

namespace Listings

/-- How far a call is, with what it has read. A job to be failed stands with its message. -/
inductive Phase where
  | idle
  | listed (jobs : List ScanJob)
  | judged (eligible : List ScanJob) (failures : List (ScanJob × String))
  | kept (eligible : List ScanJob)
  | resolved (failures : List (ScanJob × String))
  | claiming (request : HttpRequest) (jobId : String) (pending : Bool)
  | ended

/-- The statements of the calls: those of a listing, with its two commits; a claim up to its
lock, and from there to its commit; a status change and a finalization, each under its locks. -/
inductive Statement where
  | list (request : HttpRequest)
  | parents
  | failDependents (now : Instant)
  | testCases
  | failCases (now : Instant)
  | claim (request : HttpRequest) (jobId : String)
  | commitClaim (clocks : Clocks) (body : Option ClaimControl) (token : String)
  | update (clocks : Clocks) (request : HttpRequest) (jobId : String) (body : JobStatusUpdate)
  | finish (clocks : Clocks) (request : HttpRequest) (jobId : String) (body : ControlRequest)
      (outcome : Finish)

/-- A statement of a listing. -/
def Statement.lists : Statement → Bool
  | list _ | parents | failDependents _ | testCases | failCases _ => true
  | _ => false

abbrev Calls := Clients Db Phase

/-- The jobs that are to be failed. -/
def failures (verdicts : List (ScanJob × Listing)) : List (ScanJob × String) :=
  verdicts.filterMap fun v => v.2.message?.map fun m => (v.1, m)

/-- `_filter_by_dependencies` up to its commit. -/
def judge (db : Db) (jobs : List ScanJob) : Phase :=
  let verdicts := jobs.map fun j => (j, dependencyListing db j)
  .judged ((verdicts.filter fun v => v.2.isEligible).map Prod.fst) (failures verdicts)

/-- A commit of a listing: it updates every job to be failed, whatever its status is. -/
def failAll (failures : List (ScanJob × String)) (now : Instant) (db : Db) : Db :=
  let named := failures.map fun f => (f.1.id, f.2)
  { db with jobs := db.jobs.map (failListed named now) (failListed_id named now) }

/-- A call that commits or is rolled back. -/
def store {α : Type} (w : Calls) (c : ℕ) (commit : Except Refusal (Db × α)) : Calls :=
  match commit with
  | .ok (db, _) => w.commit c db .ended id
  | .error _ => w.enter c .ended

variable [Unicode]

/-- The pending jobs of the engagements that the caller can reach. -/
def list (p : Platform) (w : Calls) (c : ℕ) (request : HttpRequest) : Calls :=
  match getCurrentUser p.identity w.shared request with
  | .ok user => w.enter c (.listed (w.shared.jobs.rows.filter fun j => j.status == .pending &&
      (w.shared.engagements.get? j.programId).any (accessible w.shared user.githubId)))
  | .error _ => w.enter c .ended

/-- `_resolve_test_cases` up to its commit. -/
def resolve (db : Db) (eligible : List ScanJob) : Phase :=
  match eligible.mapM fun j => do return (j, ← caseListing db j) with
  | .ok verdicts => .resolved (failures verdicts)
  | .error _ => .ended

/-- The job as a claim reads it first. -/
def claimable (p : Platform) (request : HttpRequest) (jobId : String) (db : Db) :
    Except Refusal ScanJob := do
  let user ← getCurrentUser p.identity db request
  let job ← lockJob db jobId user
  let _ ← writableEngagement db job.programId user
  ensure (!job.managed) (.http 409 "managed authorization required; legacy claim refused")
  return job

/-- A claim up to its lock. -/
def claim (p : Platform) (w : Calls) (c : ℕ) (request : HttpRequest) (jobId : String) : Calls :=
  match claimable p request jobId w.shared with
  | .ok job => w.enter c (.claiming request jobId (job.status == .pending))
  | .error _ => w.enter c .ended

/-- The lock, the gates and the conditional update with what follows. A claim that has read
another status has no engagement to charge: it stores nothing, whether its update matches or
not. -/
def commitClaim (p : Platform) (w : Calls) (c : ℕ) (clocks : Clocks)
    (body : Option ClaimControl) (token : String) (request : HttpRequest) (jobId : String)
    (pending : Bool) : Calls :=
  if pending then store w c (claimJob p clocks request jobId body token w.shared)
  else w.enter c .ended

/-- One statement of one call. -/
def next (p : Platform) (w : Calls) : ℕ × Statement → Option Calls
  | (c, s) =>
    match w.phase c, s with
    | .idle, .list request => some (list p w c request)
    | .listed jobs, .parents => some (w.enter c (judge w.shared jobs))
    | .judged eligible failures, .failDependents now =>
      some (w.commit c (failAll failures now w.shared) (.kept eligible) id)
    | .kept eligible, .testCases => some (w.enter c (resolve w.shared eligible))
    | .resolved failures, .failCases now =>
      some (w.commit c (failAll failures now w.shared) .ended id)
    | .idle, .claim request jobId => some (claim p w c request jobId)
    | .claiming request jobId pending, .commitClaim clocks body token =>
      some (commitClaim p w c clocks body token request jobId pending)
    | .idle, .update clocks request jobId body =>
      some (store w c (updateJob p clocks request jobId body w.shared))
    | .idle, .finish clocks request jobId body outcome =>
      some (store w c (finishExecution p clocks request jobId body outcome w.shared))
    | _, _ => none

/-- Every call begins before its first statement. -/
def start (db : Db) : Calls := .start db .idle

omit [Unicode] in
/-- The jobs that a statement of a listing fails, as the listing has read them. -/
def writes (w : Calls) : ℕ × Statement → List (ScanJob × String)
  | (c, s) =>
    match w.phase c, s with
    | .judged _ failures, .failDependents _ => failures
    | .resolved failures, .failCases _ => failures
    | _, _ => []

omit [Unicode] in
/-- Every job that the statement fails has the status with which its listing has read it. -/
def Unmoved (w : Calls) (a : ℕ × Statement) : Prop :=
  ∀ f ∈ writes w a, ∀ j, w.shared.jobs.get? f.1.id = some j → j.status = f.1.status

/-! ## The lifecycle -/

omit [Unicode] in
/-- Jobs that are done or failed stay so. -/
def Settles (db db' : Db) : Prop := ∀ k j, db.jobs.get? k = some j → j.status.settled = true →
  ∃ j', db'.jobs.get? k = some j' ∧ j'.status = j.status

omit [Unicode] in
/-- What the lifecycle of jobs asks of a step: only pending jobs are failed by a listing, which
leaves running jobs as they are; and no job leaves a status that it ends with. -/
structure Follows (w : Calls) (a : ℕ × Statement) (w' : Calls) : Prop where
  pending : ∀ f ∈ writes w a, ∀ j, w.shared.jobs.get? f.1.id = some j → j.status = .pending
  running : a.2.lists = true → ∀ k j, w.shared.jobs.get? k = some j → j.status = .running →
    w'.shared.jobs.get? k = some j
  settles : Settles w.shared w'.shared

/-- The step, if the statement can be executed, follows the lifecycle. -/
def Lawful (p : Platform) (w : Calls) (a : ℕ × Statement) : Prop :=
  ∀ w', next p w a = some w' → Follows w a w'

/-- The calls one after the other, each statement under a condition. -/
abbrev Interleaving (p : Platform) (meets : Calls → ℕ × Statement → Prop) :=
  Lib.Run (Taken (next p) meets)

/-! ## Calls by themselves -/

omit [Unicode] in
theorem mem_named {verdicts : List (ScanJob × Listing)} {id message : String} :
    (id, message) ∈ (failures verdicts).map (fun f => (f.1.id, f.2)) ↔
      ∃ j, (j, .failed message) ∈ verdicts ∧ j.id = id := by
  simp only [failures, List.mem_map, List.mem_filterMap, Option.map_eq_some_iff]
  constructor
  · rintro ⟨f, ⟨v, hv, m, hm, rfl⟩, hf⟩
    obtain ⟨rfl, rfl⟩ := Prod.mk.inj hf
    refine ⟨v.1, ?_, rfl⟩
    obtain ⟨j, l⟩ := v
    cases l with
    | failed m' =>
      obtain rfl : m' = m := Option.some.inj hm
      exact hv
    | _ => cases hm
  · rintro ⟨j, hj, rfl⟩
    exact ⟨(j, message), ⟨_, hj, message, rfl, rfl⟩, rfl⟩

omit [Unicode] in
/-- A job that is named with one message, or not at all. -/
theorem failListed_of_named {failures : List (String × String)} {now : Instant} {j : ScanJob}
    {named : Option String} (h : ∀ m, (j.id, m) ∈ failures ↔ named = some m) :
    failListed failures now j = (named.map fun m => j.giveUp now m).getD j := by
  cases named with
  | none => exact (failListed_cases failures now j).resolve_right fun ⟨m, hm, _⟩ =>
      absurd ((h m).mp hm) nofun
  | some message =>
    unfold failListed
    split
    · rename_i m hm
      obtain ⟨before, rest, hfailures, -⟩ := List.lookup_eq_some_iff.mp hm
      rw [Option.some.inj ((h m).mp (by simp [hfailures]))]
      rfl
    · rename_i hnone
      exact absurd ((h message).mpr rfl) fun hm => by
        simpa using List.lookup_eq_none_iff.mp hnone _ hm

omit [Unicode] in
/-- A job that one of two lists names is failed by the two as by both together. -/
theorem failListed_failListed {first second both : List (String × String)} {now : Instant}
    {j : ScanJob} {r t : Option String} (h₁ : ∀ m, (j.id, m) ∈ first ↔ r = some m)
    (h₂ : ∀ m, (j.id, m) ∈ second ↔ t = some m)
    (hboth : ∀ m, (j.id, m) ∈ both ↔ r.or t = some m) (hone : r = none ∨ t = none) :
    failListed second now (failListed first now j) = failListed both now j := by
  rw [failListed_of_named h₁, failListed_of_named hboth]
  rcases hone with rfl | rfl
  · exact failListed_of_named h₂
  · rw [Option.or_none]
    cases r with
    | none => exact failListed_of_named h₂
    | some message => exact failListed_of_named (j := j.giveUp now message) h₂

section
variable {db : Db} {jobs : List ScanJob} {listed : List (String × Listing)}
  {verdicts : List (ScanJob × Listing)} {j : ScanJob}

theorem mem_listed (hjobs : ∀ i ∈ jobs, i ∈ db.jobs.rows)
    (h : (jobs.mapM fun j => do return (j.id, ← listing db j)) = .ok listed)
    (hj : j ∈ db.jobs.rows) {message : String} :
    (j.id, message) ∈ (listed.filterMap fun l => l.2.message?.map fun m => (l.1, m)) ↔
      j ∈ jobs ∧ listing db j = .ok (.failed message) := by
  simp only [List.mem_filterMap, Option.map_eq_some_iff, mem_mapM_iff h]
  constructor
  · rintro ⟨l, ⟨i, hi, hl⟩, m, hm, hpair⟩
    obtain ⟨verdict, hverdict, hl⟩ := bind_eq_ok hl
    obtain rfl := Except.ok.inj hl
    obtain ⟨hid, rfl⟩ := Prod.mk.inj hpair
    obtain rfl : i = j := Table.eq_of_key (hjobs i hi) hj hid
    cases verdict with
    | failed m' =>
      obtain rfl : m' = m := Option.some.inj hm
      exact ⟨hi, hverdict⟩
    | _ => cases hm
  · rintro ⟨hj, hverdict⟩
    exact ⟨(j.id, .failed message), ⟨j, hj, by rw [hverdict]; rfl⟩, message, rfl, rfl⟩

omit [Unicode] in
/-- The jobs that a listing fails for their parents. -/
theorem mem_judged (hjobs : ∀ i ∈ jobs, i ∈ db.jobs.rows) (hj : j ∈ db.jobs.rows)
    {message : String} :
    (j.id, message) ∈ (failures (jobs.map fun j => (j, dependencyListing db j))).map
      (fun f => (f.1.id, f.2)) ↔ j ∈ jobs ∧ dependencyListing db j = .failed message := by
  rw [mem_named]
  constructor
  · rintro ⟨i, hi, hid⟩
    obtain ⟨k, hk, hpair⟩ := List.mem_map.mp hi
    obtain ⟨rfl, hverdict⟩ := Prod.mk.inj hpair
    obtain rfl : k = j := Table.eq_of_key (hjobs k hk) hj hid
    exact ⟨hk, hverdict⟩
  · rintro ⟨hj, hverdict⟩
    exact ⟨j, List.mem_map.mpr ⟨j, hj, by rw [hverdict]⟩, rfl⟩

/-- The jobs that a listing fails for their test cases. -/
theorem mem_resolved (hjobs : ∀ i ∈ jobs, i ∈ db.jobs.rows)
    (h : (jobs.mapM fun j => do return (j, ← caseListing db j)) = .ok verdicts)
    (hj : j ∈ db.jobs.rows) {message : String} :
    (j.id, message) ∈ (failures verdicts).map (fun f => (f.1.id, f.2)) ↔
      j ∈ jobs ∧ caseListing db j = .ok (.failed message) := by
  simp only [mem_named, mem_mapM_iff h]
  constructor
  · rintro ⟨i, ⟨k, hk, hi⟩, hid⟩
    obtain ⟨verdict, hverdict, hi⟩ := bind_eq_ok hi
    obtain ⟨rfl, rfl⟩ := Prod.mk.inj (Except.ok.inj hi)
    obtain rfl : k = j := Table.eq_of_key (hjobs k hk) hj hid
    exact ⟨hk, hverdict⟩
  · rintro ⟨hj, hverdict⟩
    exact ⟨j, ⟨j, hj, by rw [hverdict]; rfl⟩, rfl⟩

end

omit [Unicode] in
/-- The eligible jobs among those that a listing has read. -/
theorem mem_eligible {db : Db} {jobs : List ScanJob} {j : ScanJob} :
    j ∈ ((jobs.map fun j => (j, dependencyListing db j)).filter fun v => v.2.isEligible).map
      Prod.fst ↔ j ∈ jobs ∧ dependencyListing db j = .eligible := by
  simp only [List.mem_map, List.mem_filter]
  constructor
  · rintro ⟨v, ⟨⟨i, hi, rfl⟩, heligible⟩, rfl⟩
    refine ⟨hi, ?_⟩
    cases hverdict : dependencyListing db i with
    | eligible => rfl
    | _ => simp [hverdict, Listing.isEligible] at heligible
  · rintro ⟨hj, hverdict⟩
    exact ⟨_, ⟨⟨j, hj, rfl⟩, by simp [hverdict, Listing.isEligible]⟩, rfl⟩

/-- The two commits of a listing, without other calls in between, fail what one would. -/
theorem failAll_failAll {db : Db} {jobs : List ScanJob} {listed : List (String × Listing)}
    {verdicts : List (ScanJob × Listing)} (now : Instant) (hjobs : ∀ i ∈ jobs, i ∈ db.jobs.rows)
    (hlisted : (jobs.mapM fun j => do return (j.id, ← listing db j)) = .ok listed)
    (hverdicts : (((jobs.map fun j => (j, dependencyListing db j)).filter fun v =>
      v.2.isEligible).map Prod.fst).mapM (fun j => do return (j, ← caseListing db j)) =
        .ok verdicts) :
    let named := listed.filterMap fun l => l.2.message?.map fun m => (l.1, m)
    failAll (failures verdicts) now
        (failAll (failures (jobs.map fun j => (j, dependencyListing db j))) now db) =
      { db with jobs := db.jobs.map (failListed named now) (failListed_id named now) } := by
  intro named
  have hrows : ∀ j ∈ db.jobs.rows,
      failListed ((failures verdicts).map fun f => (f.1.id, f.2)) now
        (failListed ((failures (jobs.map fun j => (j, dependencyListing db j))).map
          fun f => (f.1.id, f.2)) now j) = failListed named now j := by
    intro j hj
    have hnamed (m : String) : (j.id, m) ∈ named ↔ j ∈ jobs ∧ listing db j = .ok (.failed m) :=
      mem_listed hjobs hlisted hj
    have hjudged (m : String) :
        (j.id, m) ∈ (failures (jobs.map fun j => (j, dependencyListing db j))).map
          (fun f => (f.1.id, f.2)) ↔ j ∈ jobs ∧ dependencyListing db j = .failed m :=
      mem_judged hjobs hj
    have hresolved (m : String) : (j.id, m) ∈ (failures verdicts).map (fun f => (f.1.id, f.2)) ↔
        (j ∈ jobs ∧ dependencyListing db j = .eligible) ∧
          caseListing db j = .ok (.failed m) := by
      rw [mem_resolved (fun i hi => hjobs i (mem_eligible.mp hi).1) hverdicts hj, mem_eligible]
    by_cases hjob : j ∈ jobs
    swap
    · exact failListed_failListed (r := none) (t := none) (by simp [hjudged, hjob])
        (by simp [hresolved, hjob]) (by simp [hnamed, hjob]) (.inl rfl)
    cases hverdict : dependencyListing db j with
    | failed message =>
      have hlisting : listing db j = .ok (.failed message) := by simp [listing, hverdict]
      exact failListed_failListed (r := some message) (t := none)
        (by simp [hjudged, hjob, hverdict]) (by simp [hresolved, hverdict])
        (by simp [hnamed, hjob, hlisting]) (.inr rfl)
    | held =>
      have hlisting : listing db j = .ok .held := by simp [listing, hverdict]
      exact failListed_failListed (r := none) (t := none) (by simp [hjudged, hverdict])
        (by simp [hresolved, hverdict]) (by simp [hnamed, hlisting]) (.inl rfl)
    | eligible =>
      have hlisting : listing db j = caseListing db j := by simp [listing, hverdict]
      let said : Option String := (caseListing db j).toOption.bind Listing.message?
      have hsaid (m : String) : caseListing db j = .ok (.failed m) ↔ said = some m := by
        simp only [said]
        rcases caseListing db j with e | v
        · simp [Except.toOption]
        · cases v <;> simp [Except.toOption, Listing.message?]
      exact failListed_failListed (r := none) (t := said) (by simp [hjudged, hverdict])
        (by simp [hresolved, hjob, hverdict, hsaid]) (by simp [hnamed, hjob, hlisting, hsaid])
        (.inl rfl)
  unfold failAll
  simp only [Db.mk.injEq, true_and, and_true]
  refine Table.ext_rows ?_
  simp only [Table.map, List.map_map]
  exact List.map_congr_left hrows

/-- A listing without other calls in between is the operation that lists pending jobs. -/
theorem listing_alone {p : Platform} {clocks : Clocks} {request : HttpRequest} {db db' : Db}
    {reply : Reply} (c : ℕ) (h : pendingJobs p clocks request db = .ok (db', reply)) :
    let now := (clocks.wall 0).instant
    ∃ w, Interleaving p (fun _ _ => True) (start db) [(c, .list request), (c, .parents),
      (c, .failDependents now), (c, .testCases), (c, .failCases now)] w ∧ w.shared = db' := by
  intro now
  obtain ⟨user, huser, h⟩ := bind_eq_ok h
  dsimp only at h
  obtain ⟨listed, hlisted, h⟩ := bind_eq_ok h
  obtain ⟨rfl, -⟩ := Prod.mk.inj (Except.ok.inj h)
  have hlisted := raise_eq_ok hlisted
  let jobs := db.jobs.rows.filter fun j => j.status == .pending &&
    (db.engagements.get? j.programId).any (accessible db user.githubId)
  let judged := jobs.map fun j => (j, dependencyListing db j)
  let eligible := (judged.filter fun v => v.2.isEligible).map Prod.fst
  have hcases : ∀ j ∈ eligible, ∃ v : ScanJob × Listing,
      (do return (j, ← caseListing db j) : Except Exn _) = .ok v ∧ True := by
    intro j hj
    obtain ⟨hj, hverdict⟩ := mem_eligible.mp hj
    obtain ⟨l, hl, -⟩ := exists_mapM_iff.mp ⟨listed, hlisted, fun _ _ => trivial⟩ j hj
    obtain ⟨v, hv, -⟩ := bind_eq_ok hl
    have hv : caseListing db j = .ok v := by simpa [listing, hverdict] using hv
    exact ⟨(j, v), by rw [hv]; rfl, trivial⟩
  obtain ⟨verdicts, hverdicts, -⟩ := exists_mapM_iff.mpr hcases
  have hfailed := failAll_failAll now (fun j hj => (List.mem_filter.mp hj).1) hlisted
    hverdicts
  let first := failAll (failures judged) now db
  let read := (start db).enter c (.listed jobs)
  let ready := (read.enter c (judge db jobs)).commit c first (.kept eligible) id
  let done := (ready.enter c (.resolved (failures verdicts))).commit c
    (failAll (failures verdicts) now first) .ended id
  have hlist : next p (start db) (c, .list request) = some read := by
    simp [next, start, list, huser, read, jobs]
  have hparents : next p read (c, .parents) = some (read.enter c (judge db jobs)) := by
    simp [next, read, start, Clients.phase_enter]
  have hfirst : next p (read.enter c (judge db jobs)) (c, .failDependents now) = some ready := by
    simp [next, ready, read, start, Clients.phase_enter, judge, first, judged, eligible]
  have htestCases : next p ready (c, .testCases) =
      some (ready.enter c (.resolved (failures verdicts))) := by
    have hresolve : resolve first eligible = .resolved (failures verdicts) := by
      have hsame : (eligible.mapM fun j => do return (j, ← caseListing first j)) = .ok verdicts :=
        hverdicts
      unfold resolve
      rw [hsame]
    simp [next, ready, Clients.phase_commit, hresolve]
  have hsecond : next p (ready.enter c (.resolved (failures verdicts))) (c, .failCases now) =
      some done := by
    simp [next, done, ready, Clients.phase_enter]
  refine ⟨done, Lib.Run.of_foldlM ?_, hfailed⟩
  simp [hlist, hparents, hfirst, htestCases, hsecond]

/-- A claim without other calls in between is the operation that claims the job. -/
theorem claim_alone {p : Platform} {clocks : Clocks} {request : HttpRequest} {jobId : String}
    {body : Option ClaimControl} {token : String} {db db' : Db} {reply : Reply} (c : ℕ)
    (h : claimJob p clocks request jobId body token db = .ok (db', reply)) :
    ∃ w, Interleaving p (fun _ _ => True) (start db)
      [(c, .claim request jobId), (c, .commitClaim clocks body token)] w ∧ w.shared = db' := by
  have hclaim := h
  obtain ⟨user, huser, h⟩ := bind_eq_ok h
  obtain ⟨j, hj, h⟩ := bind_eq_ok h
  obtain ⟨e, he, h⟩ := bind_eq_ok h
  obtain ⟨_, hunmanaged, h⟩ := bind_eq_ok h
  dsimp only at h
  obtain ⟨_, hpending, -⟩ := bind_eq_ok h
  have hclaimable : claimable p request jobId db = .ok j := by
    simp [claimable, huser, hj, he, hunmanaged, bind, Except.bind, pure, Except.pure]
  let read := (start db).enter c (.claiming request jobId true)
  have hread : next p (start db) (c, .claim request jobId) = some read := by
    simp [next, start, claim, hclaimable, read, ensure_eq_ok hpending]
  have hcommit : next p read (c, .commitClaim clocks body token) =
      some (read.commit c db' .ended id) := by
    simp [next, read, start, Clients.phase_enter, commitClaim, store, hclaim]
  refine ⟨read.commit c db' .ended id, Lib.Run.of_foldlM ?_, rfl⟩
  simp [hread, hcommit]

/-! ## What each call stores -/

omit [Unicode] in
theorem Settles.refl (db : Db) : Settles db db := fun _ j hj _ => ⟨j, hj, rfl⟩

omit [Unicode] in
/-- One job is replaced, and keeps a status that it ended with. -/
theorem Settles.put {db db' : Db} {old new : ScanJob} (hjobs : db'.jobs = db.jobs.put new)
    (hold : db.jobs.get? (Keyed.key new) = some old)
    (h : old.status.settled = true → new.status = old.status) : Settles db db' := by
  intro k j hj hsettled
  rw [hjobs]
  rcases Table.get?_put_of_get? hold hj with ⟨rfl, hput⟩ | hput
  · exact ⟨new, hput, h hsettled⟩
  · exact ⟨j, hput, rfl⟩

omit [Unicode] in
theorem ne_settled {s : JobStatus} (h : s = .pending ∨ s = .running) : s.settled ≠ true := by
  rcases h with rfl | rfl <;> simp [JobStatus.settled]

section
variable {p : Platform} {clocks : Clocks} {request : HttpRequest} {jobId : String} {db db' : Db}

theorem claimJob_settles {body : Option ClaimControl} {token : String} {reply : Reply}
    (h : claimJob p clocks request jobId body token db = .ok (db', reply)) : Settles db db' := by
  obtain ⟨e, e', j, running, c, executions, capability, warning, hclaims, -, -, rfl⟩ :=
    claimJob_eq_ok h
  exact .put rfl hclaims.stored_key fun hsettled =>
    absurd hsettled (ne_settled (.inl hclaims.admits.status))

theorem updateJob_settles {body : JobStatusUpdate} {reply : Reply}
    (h : updateJob p clocks request jobId body db = .ok (db', reply)) : Settles db db' := by
  rcases updateJob_eq_ok h with rfl | ⟨j, j', hj, -, hpatched, -, rfl⟩ | ⟨x, -, -, rfl⟩
  · exact .refl db'
  · have hpatch := hpatched.settled
    obtain ⟨status, completedAt, errorMessage, assessment, rfl⟩ := hpatched.row
    exact .put rfl (stored_key hj rfl) hpatch
  · exact .refl db

/-- A job whose execution is open is running. -/
theorem finishExecution_settles (hmatched : Matched db) {body : ControlRequest} {f : Finish}
    {reply : Except Refusal Reply}
    (h : finishExecution p clocks request jobId body f db = .ok (db', reply)) :
    Settles db db' := by
  obtain ⟨x, j, e, hcontrols, hfinishes⟩ := finishExecution_eq_ok h
  cases hfinishes with
  | again => exact .refl db
  | late => exact .refl db
  | uncertain => exact .refl db
  | ended now opened =>
    refine .put rfl (stored_key hcontrols.job rfl) fun hsettled => ?_
    obtain ⟨j', hj', hfits⟩ := hmatched _ _ hcontrols.execution
    obtain rfl := Option.some.inj (hcontrols.job.symm.trans hj')
    exact absurd hsettled (ne_settled (.inr (hfits.status.trans (jobStatus_of_open opened))))

end

section
variable {failures : List (ScanJob × String)} {now : Instant} {db : Db}

omit [Unicode] in
/-- A job that is not pending is left alone by a commit that fails pending jobs only. -/
theorem failAll_of_ne (h : ∀ f ∈ failures, ∀ j, db.jobs.get? f.1.id = some j → j.status = .pending)
    {k : String} {j : ScanJob} (hj : db.jobs.get? k = some j) (hne : j.status ≠ .pending) :
    (failAll failures now db).jobs.get? k = some j := by
  have hget := Table.get?_map (t := db.jobs)
    (failListed_id (failures.map fun f => (f.1.id, f.2)) now) k
  rw [hj, Option.map_some] at hget
  rcases failListed_cases (failures.map fun f => (f.1.id, f.2)) now j with hsame | ⟨m, hmem, -⟩
  · rwa [hsame] at hget
  · obtain ⟨f, hf, hnamed⟩ := List.mem_map.mp hmem
    have hid : f.1.id = k := (congrArg Prod.fst hnamed).trans (Table.key_of_get? hj)
    exact absurd (h f hf j (hid ▸ hj)) hne

theorem failAll_changes (rt : Runtime) (now : Instant)
    (h : ∀ f ∈ failures, ∀ j, db.jobs.get? f.1.id = some j → j.status = .pending) :
    ∃ es, Changes rt db es (failAll failures now db) := by
  have hrow : ∀ j ∈ db.jobs.rows,
      failListed (failures.map fun f => (f.1.id, f.2)) now j = j ∨ j.status = .pending ∧
        ∃ now' message, failListed (failures.map fun f => (f.1.id, f.2)) now j =
          j.giveUp now' message := by
    refine fun j hj => (failListed_cases _ now j).imp id fun ⟨m, hmem, hgive⟩ => ?_
    obtain ⟨f, hf, hnamed⟩ := List.mem_map.mp hmem
    have hid : f.1.id = j.id := congrArg Prod.fst hnamed
    exact ⟨h f hf j (hid ▸ Table.get?_of_mem hj), now, m, hgive⟩
  obtain ⟨es, hchanges, -⟩ := given_changes rt (failListed_id _ now) hrow
  exact ⟨es, hchanges⟩

omit [Unicode] in
theorem failAll_settles
    (h : ∀ f ∈ failures, ∀ j, db.jobs.get? f.1.id = some j → j.status = .pending) :
    Settles db (failAll failures now db) := fun _ j hj hsettled =>
  ⟨j, failAll_of_ne h hj fun hpending => ne_settled (.inl hpending) hsettled, rfl⟩

end

/-! ## What a listing has read -/

omit [Unicode] in
/-- The jobs that a listing has read were pending. -/
def Phase.Read : Phase → Prop
  | listed jobs | kept jobs => ∀ j ∈ jobs, j.status = .pending
  | judged eligible failures =>
    (∀ j ∈ eligible, j.status = .pending) ∧ ∀ f ∈ failures, f.1.status = .pending
  | resolved failures => ∀ f ∈ failures, f.1.status = .pending
  | idle | claiming _ _ _ | ended => True

omit [Unicode] in
theorem failures_read {verdicts : List (ScanJob × Listing)}
    (h : ∀ v ∈ verdicts, v.1.status = .pending) :
    ∀ f ∈ failures verdicts, f.1.status = .pending := by
  intro f hf
  obtain ⟨v, hv, hmessage⟩ := List.mem_filterMap.mp hf
  obtain ⟨m, -, rfl⟩ := Option.map_eq_some_iff.mp hmessage
  exact h v hv

omit [Unicode] in
theorem judge_read {db : Db} {jobs : List ScanJob} (h : ∀ j ∈ jobs, j.status = .pending) :
    (judge db jobs).Read := by
  have hverdicts : ∀ v ∈ jobs.map fun j => (j, dependencyListing db j), v.1.status = .pending := by
    intro v hv
    obtain ⟨j, hj, rfl⟩ := List.mem_map.mp hv
    exact h j hj
  refine ⟨fun j hj => ?_, failures_read hverdicts⟩
  obtain ⟨v, hv, rfl⟩ := List.mem_map.mp hj
  exact hverdicts v (List.mem_filter.mp hv).1

variable {p : Platform} {w w' : Calls} {a : ℕ × Statement}

theorem list_read {c : ℕ} {request : HttpRequest} (h : ∀ d, (w.phase d).Read) :
    ∀ d, ((list p w c request).phase d).Read := by
  unfold list
  split
  · refine Clients.forall_enter (p := fun _ => Phase.Read) (fun j hj => ?_) h
    have hlisted := (List.mem_filter.mp hj).2
    simp only [Bool.and_eq_true, beq_iff_eq] at hlisted
    exact hlisted.1
  · exact Clients.forall_enter (p := fun _ => Phase.Read) trivial h

theorem resolve_read {db : Db} {eligible : List ScanJob} (h : ∀ j ∈ eligible, j.status = .pending) :
    (resolve db eligible).Read := by
  unfold resolve
  split
  · rename_i verdicts hverdicts
    refine failures_read fun v hv => ?_
    obtain ⟨j, hj, hv⟩ := exists_of_mapM_eq_ok hverdicts hv
    obtain ⟨l, -, hv⟩ := bind_eq_ok hv
    obtain rfl := Except.ok.inj hv
    exact h j hj
  · trivial

omit [Unicode] in
theorem store_read {α : Type} {c : ℕ} {commit : Except Refusal (Db × α)}
    (h : ∀ d, (w.phase d).Read) : ∀ d, ((store w c commit).phase d).Read := by
  unfold store
  split
  · exact Clients.forall_commit (p := fun _ => Phase.Read) trivial fun d _ => h d
  · exact Clients.forall_enter (p := fun _ => Phase.Read) trivial h

theorem next_read (h : ∀ d, (w.phase d).Read) (hnext : next p w a = some w') :
    ∀ d, (w'.phase d).Read := by
  obtain ⟨c, s⟩ := a
  have hown := h c
  unfold next at hnext
  dsimp only at hnext
  split at hnext
  · exact Option.some.inj hnext ▸ list_read h
  · rename_i hc
    rw [hc] at hown
    exact Option.some.inj hnext ▸
      Clients.forall_enter (p := fun _ => Phase.Read) (judge_read hown) h
  · rename_i hc
    rw [hc] at hown
    exact Option.some.inj hnext ▸
      Clients.forall_commit (p := fun _ => Phase.Read) hown.1 fun d _ => h d
  · rename_i hc
    rw [hc] at hown
    exact Option.some.inj hnext ▸
      Clients.forall_enter (p := fun _ => Phase.Read) (resolve_read hown) h
  · exact Option.some.inj hnext ▸
      Clients.forall_commit (p := fun _ => Phase.Read) trivial fun d _ => h d
  · obtain rfl := Option.some.inj hnext
    unfold claim
    split <;> exact Clients.forall_enter (p := fun _ => Phase.Read) trivial h
  · obtain rfl := Option.some.inj hnext
    unfold commitClaim
    split
    · exact store_read h
    · exact Clients.forall_enter (p := fun _ => Phase.Read) trivial h
  · exact Option.some.inj hnext ▸ store_read h
  · exact Option.some.inj hnext ▸ store_read h
  · simp at hnext

omit [Unicode] in
theorem writes_read (h : ∀ d, (w.phase d).Read) : ∀ f ∈ writes w a, f.1.status = .pending := by
  obtain ⟨c, s⟩ := a
  have hown := h c
  unfold writes
  dsimp only
  split
  · rename_i hc
    rw [hc] at hown
    exact hown.2
  · rename_i hc
    rw [hc] at hown
    exact hown
  · simp

/-! ## Steps -/

/-- The database stays sound, and settled jobs stay as they are. -/
structure Keeps (db db' : Db) : Prop where
  sound : Sound db'
  settles : Settles db db'

theorem Keeps.of_changes (rt : Runtime) {db db' : Db} {es : List Event} (hdb : Sound db)
    (h : Changes rt db es db') (hsettles : Settles db db') : Keeps db db' :=
  ⟨h.invariant Sound (fun hdb hchange => hdb.step hchange) hdb, hsettles⟩

omit [Unicode] in
theorem store_keeps {α : Type} {c : ℕ} {commit : Except Refusal (Db × α)} (hsound : Sound w.shared)
    (h : ∀ db' x, commit = .ok (db', x) → Keeps w.shared db') :
    Keeps w.shared (store w c commit).shared := by
  unfold store
  split
  · exact h _ _ rfl
  · exact ⟨hsound, .refl _⟩

omit [Unicode] in
/-- A statement that fails nothing, of a listing only if it stores nothing. -/
theorem follows_of_keeps (hwrites : writes w a = [])
    (hlists : a.2.lists = true → w'.shared = w.shared) (h : Keeps w.shared w'.shared) :
    Sound w'.shared ∧ Follows w a w' where
  left := h.sound
  right := {
    pending := fun f hf => by simp [hwrites] at hf
    running := fun hl _ _ hj _ => by rwa [hlists hl]
    settles := h.settles }

omit [Unicode] in
theorem follows_of_enter {c : ℕ} {x : Phase} (hsound : Sound w.shared) (hwrites : writes w a = []) :
    Sound (w.enter c x).shared ∧ Follows w a (w.enter c x) :=
  follows_of_keeps hwrites (fun _ => rfl) ⟨hsound, .refl _⟩

/-- A commit of a listing that fails pending jobs. -/
theorem follows_failAll (rt : Runtime) {failures : List (ScanJob × String)} {now : Instant}
    (hsound : Sound w.shared) (hwrites : writes w a = failures)
    (hshared : w'.shared = failAll failures now w.shared)
    (h : ∀ f ∈ writes w a, ∀ j, w.shared.jobs.get? f.1.id = some j → j.status = .pending) :
    Sound w'.shared ∧ Follows w a w' := by
  have hpending := h
  rw [hwrites] at hpending
  obtain ⟨es, hchanges⟩ := failAll_changes rt now hpending
  have hkeeps := Keeps.of_changes rt hsound hchanges (failAll_settles hpending)
  refine ⟨hshared ▸ hkeeps.sound, h, fun _ k j hj hrunning => ?_, hshared ▸ hkeeps.settles⟩
  rw [hshared]
  exact failAll_of_ne hpending hj (by simp [hrunning])

theorem next_follows (rt : Runtime) (hsound : Sound w.shared)
    (hnext : next p w a = some w')
    (h : ∀ f ∈ writes w a, ∀ j, w.shared.jobs.get? f.1.id = some j → j.status = .pending) :
    Sound w'.shared ∧ Follows w a w' := by
  obtain ⟨c, s⟩ := a
  unfold next at hnext
  dsimp only at hnext
  split at hnext
  · rename_i hc
    obtain rfl := Option.some.inj hnext
    unfold list
    split <;> exact follows_of_enter hsound (by simp [writes, hc])
  · rename_i hc
    exact Option.some.inj hnext ▸ follows_of_enter hsound (by simp [writes, hc])
  · rename_i hc
    exact Option.some.inj hnext ▸ follows_failAll rt hsound (by simp [writes, hc]) rfl h
  · rename_i hc
    exact Option.some.inj hnext ▸ follows_of_enter hsound (by simp [writes, hc])
  · rename_i hc
    exact Option.some.inj hnext ▸ follows_failAll rt hsound (by simp [writes, hc]) rfl h
  · rename_i hc
    obtain rfl := Option.some.inj hnext
    unfold claim
    split <;> exact follows_of_enter hsound (by simp [writes, hc])
  · rename_i hc
    obtain rfl := Option.some.inj hnext
    unfold commitClaim
    split
    · refine follows_of_keeps (by simp [writes, hc]) nofun (store_keeps hsound fun db' x hok => ?_)
      obtain ⟨_, _, hchanges, -⟩ := claimJob_changes rt hok
      exact .of_changes rt hsound hchanges (claimJob_settles hok)
    · exact follows_of_enter hsound (by simp [writes, hc])
  · rename_i hc
    obtain rfl := Option.some.inj hnext
    refine follows_of_keeps (by simp [writes, hc]) nofun (store_keeps hsound fun db' x hok => ?_)
    obtain ⟨es, hchanges, -⟩ := updateJob_changes rt hok
    exact .of_changes rt hsound hchanges (updateJob_settles hok)
  · rename_i hc
    obtain rfl := Option.some.inj hnext
    refine follows_of_keeps (by simp [writes, hc]) nofun (store_keeps hsound fun db' x hok => ?_)
    exact .of_changes rt hsound (finishExecution_changes hok)
      (finishExecution_settles hsound.matched hok)
  · simp at hnext

/-! ## Interleavings -/

/-- A programme with a failed job and two jobs that wait on it. -/
def listingOps : List Op := [
  .engagement (.create ⟨"e1", "o1", "bug_bounty", "active", none, none, none⟩),
  .job (.create "e1" ⟨"j1", "subfinder", "scope", .obj [], none, false⟩),
  .job (.create "e1" ⟨"j2", "httpx", "scope", .obj [], some "j1", false⟩),
  .job (.create "e1" ⟨"j3", "httpx", "scope", .obj [], some "j1", false⟩),
  .job (.update "j1" ⟨some .failed, none⟩)].map bySession

/-- A listing reads the two jobs and their parent; then both are claimed, and one is done. -/
def listingActions : List (ℕ × Statement) :=
  let owner : HttpRequest := ⟨none, some "owner"⟩
  [(0, .list owner), (0, .parents),
    (1, .claim owner "j2"), (1, .commitClaim exampleClocks none ""),
    (2, .claim owner "j3"), (2, .commitClaim exampleClocks none ""),
    (3, .update exampleClocks owner "j3" ⟨some .done, none⟩)]

/-- The statuses of the two jobs. -/
def listingStatuses (w : Calls) : List (Option JobStatus) :=
  ["j2", "j3"].map fun id => (w.shared.jobs.get? id).map ScanJob.status

end Listings
end VardrMap
