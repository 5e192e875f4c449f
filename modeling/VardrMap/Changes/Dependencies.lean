import VardrMap.Changes.Sound

/-!
# Jobs that wait on a parent

A job with a parent should enter running only when its parent is done. The listing of pending
jobs holds it back until then, and only claims set jobs to running; but a claim takes any
pending job that it names, listed or not.
-/
namespace VardrMap
open Lib

variable [Unicode] {rt : Runtime}

/-- The job that a job waits on, if any. -/
def ScanJob.parent (j : ScanJob) : Option String := j.dependsOn.filter fun id => !id.isEmpty

/-- The parent of the job, if it has one, is stored and done. -/
def ParentDone (db : Db) (j : ScanJob) : Prop :=
  ∀ id ∈ j.parent, ∃ parent, db.jobs.get? id = some parent ∧ parent.status = .done

omit [Unicode] in
/-- The listing lets through the jobs whose parent is done, and no others. -/
theorem dependencyListing_eq_eligible {db : Db} {j : ScanJob} :
    dependencyListing db j = .eligible ↔ ParentDone db j := by
  have hparent : (j.dependsOn.filter fun id => !id.isEmpty) = j.parent := rfl
  unfold dependencyListing ParentDone
  rw [hparent]
  cases j.parent with
  | none => simp
  | some id =>
    cases hparent : db.jobs.get? id with
    | none => simp [hparent]
    | some parent => cases hstatus : parent.status <;> simp [hparent, hstatus]

/-! ## Entering running -/

/-- A job that is running after changes was running before them, or one of them began it. -/
theorem Changes.began {db db' : Db} {es : List Event} (h : Changes rt db es db') {k : String}
    {j' : ScanJob} (hj' : db'.jobs.get? k = some j') (hrunning : j'.status = .running) :
    (∃ j, db.jobs.get? k = some j ∧ j.status = .running) ∨ ∃ j, j.id = k ∧ .began j ∈ es := by
  let inv (fs : List Event) (db₁ : Db) : Prop := ∀ j₁, db₁.jobs.get? k = some j₁ →
    j₁.status = .running →
      (∃ j, db.jobs.get? k = some j ∧ j.status = .running) ∨ ∃ j, j.id = k ∧ .began j ∈ fs
  have hstart : inv [] db := fun j₁ hj₁ hrunning => .inl ⟨j₁, hj₁, hrunning⟩
  refine h.traceInvariant inv (fun {db₁ db₂ fs gs} hbefore hchange j₂ hj₂ hrunning => ?_) hstart
    j' hj' hrunning
  rcases hchange.job_row hj₂ with ⟨hqueued, -, -⟩ | ⟨j₁, hj₁, -⟩
  · exact absurd (hqueued.status.symm.trans hrunning) nofun
  · rcases (hchange.job_events hj₁ hj₂).running hrunning with hsame | hbegan
    · refine (hbefore j₁ hj₁ hsame).imp id fun ⟨j, hid, hmem⟩ => ⟨j, hid, ?_⟩
      exact List.mem_append_left _ hmem
    · exact .inr ⟨j₁, Table.key_of_get? hj₁, List.mem_append_right _ hbegan⟩

/-- The operation sets the job to running. -/
theorem Op.Begins.running {op : Op} {db : Db} {j : ScanJob} (h : op.Begins rt db j) :
    ∃ j', (exec rt op db).1.jobs.get? j.id = some j' ∧ j'.status = .running := by
  obtain ⟨reply, hreply⟩ := h.accepted
  have hcall := h.call
  unfold Op.claims? at hcall
  split at hcall
  · rename_i jobId body token hop
    obtain rfl := Option.some.inj hcall
    simp only [exec, hop, JobOp.run] at hreply ⊢
    cases hcommit : claimJob rt.toPlatform op.clocks op.request j.id body token db with
    | error e => simp [hcommit, settle] at hreply
    | ok committed =>
      obtain ⟨e, e', j₁, running, c, executions, capability, warning, hclaims, -, -, hdb⟩ :=
        claimJob_eq_ok hcommit
      obtain rfl : j₁ = j := by
        have hj₁ := hclaims.admits.job
        rw [hclaims.jobId, h.stored] at hj₁
        exact (Option.some.inj hj₁).symm
      have hkey := hclaims.stored_key
      obtain ⟨startedAt, caseSnapshot, rfl⟩ := hclaims.running
      simp only [settle, hdb]
      exact ⟨_, Table.get?_put_self hkey, rfl⟩
  · rename_i jobId body ids hop
    obtain rfl := Option.some.inj hcall
    obtain ⟨-, observed, db', hbody, hexec⟩ := exec_managed_ok hop hreply
    obtain ⟨i, hi, rfl, -⟩ := claim_eq_ok hbody
    have hid : i.running.id = j.id := Table.key_of_get? hi.job
    rw [hexec, ← hid]
    exact ⟨_, Table.get?_put_self hi.running_key, rfl⟩
  · cases hcall

/-! ## Runs -/

/-- Every job that the operation sets to running was stored with its parent done. -/
def EntersAfterParent (rt : Runtime) (op : Op) (db : Db) : Prop :=
  ∀ k j', (exec rt op db).1.jobs.get? k = some j' → j'.status = .running →
    ∃ j, db.jobs.get? k = some j ∧ (j.status = .running ∨ ParentDone db j)

/-- An operation is an accepted claim of a job that the listing does not let through. -/
def Op.claimsWithheld (op : Op) (rt : Runtime) (db : Db) : Prop :=
  ∃ j, op.Begins rt db j ∧ dependencyListing db j ≠ .eligible

theorem entersAfterParent_iff (rt : Runtime) (op : Op) (db : Db) :
    EntersAfterParent rt op db ↔ ¬ op.claimsWithheld rt db := by
  constructor
  · rintro henters ⟨j, hbegins, hwithheld⟩
    obtain ⟨j', hj', hrunning⟩ := hbegins.running
    obtain ⟨j₁, hj₁, hstatus | hdone⟩ := henters _ _ hj' hrunning
    · obtain rfl := Option.some.inj (hbegins.stored.symm.trans hj₁)
      exact absurd (hbegins.pending.symm.trans hstatus) nofun
    · obtain rfl := Option.some.inj (hbegins.stored.symm.trans hj₁)
      exact hwithheld (dependencyListing_eq_eligible.mpr hdone)
  · intro hop k j' hj' hrunning
    obtain ⟨es, hchanges, hemits⟩ := exec_changes rt op db
    rcases Changes.began hchanges hj' hrunning with ⟨j, hj, hstatus⟩ | ⟨j, rfl, hbegan⟩
    · exact ⟨j, hj, .inl hstatus⟩
    · have hbegins := hemits.began j hbegan
      refine ⟨j, hbegins.stored, .inr (dependencyListing_eq_eligible.mp ?_)⟩
      by_contra hwithheld
      exact hop ⟨j, hbegins, hwithheld⟩

/-- A programme, two jobs of which one waits on the other, and a claim of the waiting one. -/
def dependencyOps : List Op := [
  .engagement (.create ⟨"e1", "o1", "bug_bounty", "active", none, none, none⟩),
  .job (.create "e1" ⟨"j1", "subfinder", "scope", .obj [], none, false⟩),
  .job (.create "e1" ⟨"j2", "httpx", "scope", .obj [], some "j1", false⟩)].map bySession

def dependencyClaim : Op := bySession (.job (.claim "j2" none ""))

end VardrMap
