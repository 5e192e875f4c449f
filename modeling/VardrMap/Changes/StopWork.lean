import VardrMap.Changes.Finality
import VardrMap.Changes.Leases

/-!
# Stop-work

Stop-work ends every active execution of its engagement, and while it is engaged nothing
lets a runner go on: no claim, no renewal, no permission and no consumption is accepted. An
execution that lost its lease, by stop-work or otherwise, never gets another one.
-/
namespace VardrMap
open Lib

variable [Unicode] {rt : Runtime}

/-! ## Requests that let a runner go on -/

/-- An accepted request lets the runner of the job start or go on. -/
def Op.letsOn (op : Op) (rt : Runtime) (db : Db) (k : String) : Prop :=
  match op.call with
  | .job (.claim id _ _) => id = k ∧ ∃ reply, (exec rt op db).2 = .ok reply
  | .job (.control id _) => id = k ∧ ∃ jobId runnerId origin lease,
    (exec rt op db).2 = .ok (.control jobId runnerId origin .proceed lease)
  | .managed (.claim id _ _) | .managed (.current id _ _) | .managed (.refresh id _ _)
  | .managed (.consume id _ _ _) => id = k ∧ ∃ reply, (exec rt op db).2 = .ok reply
  | _ => False

/-- What such a request has found: the engagement is not stopped, and the job waits for a
claim or has an active execution. -/
structure Going (db : Db) (k : String) : Prop where
  unstopped : ∃ j e, db.jobs.get? k = some j ∧ db.engagements.get? j.programId = some e ∧
    e.stopWorkAt = none ∧ (j.status = .pending ∨
      ∃ x, db.executions.get? k = some x ∧ x.state = .active)

omit [Unicode] in
/-- The clock does not matter to it. -/
theorem Going.observed {db : Db} {observed : Option Instant} {k : String}
    (h : Going { db with observed } k) : Going db k :=
  ⟨h.unstopped⟩

/-- A live managed execution is active, and its engagement is not stopped. -/
theorem LiveAt.going {issuer : Issuer} {clocks : Clocks} {request : HttpRequest} {jobId : String}
    {body : ControlRequest} {ref : AttemptRef} {db : Db} {user : User} {l : Issuer.Live}
    (h : LiveAt issuer clocks request jobId body ref db user l) : Going db jobId := by
  obtain ⟨result, row, p, raw, f, hp, -⟩ := h.permitted
  have hfacts := hp.projects.facts
  have he := hfacts.engagement
  rw [hp.projects.job_eq] at he
  exact ⟨l.job, _, h.job, he, hfacts.stopWork, .inr ⟨_, h.execution, h.active⟩⟩

theorem Op.letsOn.going {op : Op} {db : Db} {k : String} (h : op.letsOn rt db k) :
    Going db k := by
  obtain ⟨request, clocks, call⟩ := op
  cases call with
  | engagement => cases h
  | provision => cases h
  | job call =>
    cases call with
    | claim id body token =>
      obtain ⟨rfl, reply, hreply⟩ := h
      simp only [exec, JobOp.run] at hreply
      cases hclaim : claimJob rt.toPlatform clocks request id body token db with
      | error e =>
        rw [hclaim] at hreply
        cases hreply
      | ok committed =>
        obtain ⟨e, e', j, running, c, executions, capability, warning, hclaims, -⟩ :=
          claimJob_eq_ok hclaim
        have hadmits := hclaims.admits
        obtain rfl := hclaims.jobId
        exact ⟨j, e, hadmits.job, hadmits.engagement, hadmits.stopWork, .inl hadmits.status⟩
    | control id body =>
      obtain ⟨rfl, jobId, runnerId, origin, lease, hreply⟩ := h
      simp only [exec, JobOp.run] at hreply
      cases hrefresh : refreshExecution rt.toPlatform clocks request id body db with
      | error e =>
        rw [hrefresh] at hreply
        cases hreply
      | ok committed =>
        obtain ⟨db', reply⟩ := committed
        rw [hrefresh] at hreply
        obtain rfl : reply = _ := Except.ok.inj hreply
        obtain ⟨x, j, e, hcontrols, ⟨hactive, hstop, -⟩ | ⟨⟨_, _, hcancel⟩, -⟩⟩ :=
          refreshExecution_eq_ok hrefresh
        · exact ⟨j, e, hcontrols.job, hcontrols.engagement, hstop,
            .inr ⟨x, hcontrols.execution, hactive⟩⟩
        · cases hcancel
    | _ => cases h
  | managed call =>
    cases call with
    | claim id body ids =>
      obtain ⟨rfl, reply, hreply⟩ := h
      obtain ⟨-, observed, db', hbody, -⟩ := exec_managed_ok rfl hreply
      obtain ⟨i, hi, -⟩ := claim_eq_ok hbody
      have hadmits := hi.admits
      exact ⟨i.job, i.engagement, hi.job, hadmits.engagement, hadmits.stopWork, .inl hi.status⟩
    | current id body ref =>
      obtain ⟨rfl, reply, hreply⟩ := h
      obtain ⟨-, observed, db', hbody, -⟩ := exec_managed_ok rfl hreply
      obtain ⟨user, l, t, hl, -⟩ := current_eq_ok hbody
      exact hl.going.observed
    | refresh id body ref =>
      obtain ⟨rfl, reply, hreply⟩ := h
      obtain ⟨-, observed, db', hbody, -⟩ := exec_managed_ok rfl hreply
      obtain ⟨r, hrenews, -⟩ := refresh_eq_ok hbody
      obtain ⟨user, hl⟩ := hrenews.live
      exact hl.going.observed
    | consume id body ref sha =>
      obtain ⟨rfl, reply, hreply⟩ := h
      obtain ⟨-, observed, db', hbody, -⟩ := exec_managed_ok rfl hreply
      obtain ⟨l, locked, last, hconsumes, -⟩ := consume_eq_ok hbody
      obtain ⟨user, hl⟩ := hconsumes.live
      exact hl.going.observed
    | _ => cases h

/-! ## Stopped engagements -/

/-- No execution of a job of a stopped engagement is active. -/
def Quiet (db : Db) : Prop :=
  ∀ k x j e, db.executions.get? k = some x → x.state = .active → db.jobs.get? k = some j →
    db.engagements.get? j.programId = some e → e.stopWorkAt = none

omit [Unicode] in
/-- Stop-work leaves no execution of its engagement active. -/
theorem halt_not_active {db : Db} {id : String} {x : JobExecution} {j : ScanJob}
    (hj : db.jobs.get? x.jobId = some j) (hprogram : j.programId = id) :
    (db.halt id x).state ≠ .active := by
  have hany : ((db.jobs.get? x.jobId).any fun j => j.programId == id) = true := by
    rw [hj, Option.any_some, hprogram, beq_self_eq_true]
  unfold Db.halt JobExecution.requestCancel
  rw [if_pos hany]
  split
  · exact nofun
  · rename_i hstate
    exact fun hactive => hstate (by rw [hactive]; rfl)

/-- Where stop-work of an engagement comes from: it was engaged before, or it was engaged just
now and the executions of the engagement are no longer active. -/
theorem Change.stopWork {db db' : Db} {es : List Event} (h : Change rt db es db') {id : String}
    {e e' : Engagement} (he : db.engagements.get? id = some e)
    (he' : db'.engagements.get? id = some e') :
    e'.stopWorkAt = none ∨ e'.stopWorkAt = e.stopWorkAt ∨
      ∀ k x j, db'.executions.get? k = some x → db'.jobs.get? k = some j → j.programId = id →
        x.state ≠ .active := by
  have hput : ∀ {r old : Engagement}, db.engagements.get? (Keyed.key r) = some old →
      (db.engagements.put r).get? id = some e' →
      (r.stopWorkAt = none ∨ r.stopWorkAt = old.stopWorkAt) →
      e'.stopWorkAt = none ∨ e'.stopWorkAt = e.stopWorkAt := fun hold hput hr => by
    rcases Table.of_get?_put hold hput with ⟨rfl, rfl⟩ | ⟨-, hsame⟩
    · obtain rfl := Option.some.inj (hold.symm.trans he)
      exact hr
    · exact .inr (by rw [Option.some.inj (hsame.symm.trans he)])
  cases h with
  | engaged fresh unspent stored =>
    have hsame := (Table.get?_insert_of_get? stored he).symm.trans he'
    exact .inr (.inl (by rw [Option.some.inj hsame]))
  | disengaged =>
    rw [Table.get?_filter, Option.filter_eq_some_iff] at he'
    exact .inr (.inl (by rw [Option.some.inj (he'.1.symm.trans he)]))
  | amended known amends =>
    rcases hput amends.stored_key he' amends.stopWork.symm with h | h
    · exact .inl h
    · exact .inr (.inl h)
  | halted now stored =>
    rename_i e₀
    rcases Table.of_get?_put (halted_key now stored) he' with ⟨hid, -⟩ | ⟨-, hsame⟩
    · refine .inr (.inr fun k x j hx hj hprogram => ?_)
      have hx : (db.executions.map (db.halt e₀.id) (halt_jobId db e₀.id)).get? k = some x := hx
      rw [Table.get?_map] at hx
      obtain ⟨y, hy, rfl⟩ := Option.map_eq_some_iff.mp hx
      have hy_id : y.jobId = k := Table.key_of_get? hy
      have hkey : Keyed.key (e₀.halted now) = e₀.id := by unfold Engagement.halted; split <;> rfl
      exact halt_not_active (hy_id ▸ hj) (hprogram.trans (hid.symm.trans hkey))
    · exact .inr (.inl (by rw [Option.some.inj (hsame.symm.trans he)]))
  | claimed claims =>
    have hr := hput claims.admits.stored_key he' (.inl (by
      rw [claims.admits.charged]
      exact claims.admits.stopWork))
    exact hr.imp_right .inl
  | issued issues =>
    have hr := hput issues.charged_key he' (.inl (by
      rw [issues.admits.charged]
      exact issues.admits.stopWork))
    exact hr.imp_right .inl
  | _ => exact .inr (.inl (by rw [Option.some.inj (he'.symm.trans he)]))

/-- A change that begins a job finds its engagement without stop-work, and leaves it so. -/
theorem Change.began_unstopped {db db' : Db} {es : List Event} (h : Change rt db es db')
    {j : ScanJob} (hbegan : .began j ∈ es) {e' : Engagement}
    (he' : db'.engagements.get? j.programId = some e') : e'.stopWorkAt = none := by
  have hput : ∀ {e r : Engagement} {c : Charge}, Admits db j e r c →
      (db.engagements.put r).get? j.programId = some e' → e'.stopWorkAt = none :=
    fun hadmits hput => by
      rcases Table.of_get?_put hadmits.stored_key hput with ⟨-, rfl⟩ | ⟨hne, -⟩
      · rw [hadmits.charged]
        exact hadmits.stopWork
      · have hid := Table.key_of_get? hadmits.engagement
        rw [hadmits.charged] at hne
        exact absurd hid hne
  cases h with
  | patched rows emits moves =>
    obtain ⟨_, _, hev⟩ := moves _ hbegan
    cases hev
  | claimed claims =>
    simp only [List.mem_cons, reduceCtorEq, List.not_mem_nil, Event.began.injEq, false_or,
      or_false] at hbegan
    exact hput (hbegan ▸ claims.admits) he'
  | issued issues =>
    simp only [List.mem_cons, reduceCtorEq, List.not_mem_nil, Event.began.injEq, false_or,
      or_false] at hbegan
    exact hput (hbegan ▸ issues.admits) he'
  | _ => simp at hbegan

omit [Unicode] in
/-- An execution that is active after a step was active before it. -/
theorem ExecutionStep.active {x x' : JobExecution} (h : ExecutionStep x x')
    (hx' : x'.state = .active) : x.state = .active := by
  cases h with
  | same => exact hx'
  | held state expiresAt opened still active => exact active hx'
  | ended o => exact absurd hx' (finish_not_active x o)

theorem Quiet.step {db db' : Db} {es : List Event} (hquiet : Quiet db) (hdb : Sound db)
    (h : Change rt db es db') : Quiet db' := by
  intro k x' j' e' hx' hactive hj' he'
  rcases h.execution_row hdb.matched hx' with ⟨-, j, hnew⟩ | ⟨x, hx, hstep⟩
  · -- a new execution: a claim has just begun its job
    have hid : x'.jobId = k := Table.key_of_get? hx'
    have hj : db.jobs.get? k = some j := hid ▸ hnew.job
    have hevents := h.job_events hj hj'
    obtain ⟨j₁, hj₁, hfits⟩ := (hdb.step h).matched k x' hx'
    obtain rfl := Option.some.inj (hj₁.symm.trans hj')
    have hrunning : j₁.status = .running := by rw [hfits.status, hactive]; rfl
    rcases hevents.running hrunning with hsame | hbegan
    · exact absurd (hnew.pending.symm.trans hsame) nofun
    · rw [hevents.request.programId] at he'
      exact h.began_unstopped hbegan he'
  · obtain ⟨j, hj, -⟩ := hdb.matched k x hx
    have hprogram := (h.job_events hj hj').request.programId
    rw [hprogram] at he'
    rcases h.engagement_row he' with ⟨hfresh, -⟩ | ⟨e, he, -⟩
    · exact absurd (hdb.known.job hj).2 hfresh
    · rcases h.stopWork he he' with hnone | hsame | hidle
      · exact hnone
      · rw [hsame]
        exact hquiet k x j e hx (hstep.active hactive) hj he
      · exact absurd hactive (hidle k x' j' hx' hj' hprogram)

theorem Reachable.quiet {db : Db} (h : Reachable rt db) : Quiet db :=
  (h.invariant (fun db => Sound db ∧ Quiet db)
    (fun hdb hchange => ⟨hdb.1.step hchange, hdb.2.step hdb.1 hchange⟩)
    ⟨.empty, fun _ _ _ _ hx => by cases hx⟩).2

/-- Stop-work, over all runs. While the engagement of a job is stopped the execution of the job
is not active, and no accepted request claims the job, renews its lease, permits or consumes
its contract or tells its runner to go on. -/
theorem stopWork_holds (rt : Runtime) (ops : List Op) :
    let db := after rt ops .empty
    ∀ k j e, db.jobs.get? k = some j → db.engagements.get? j.programId = some e →
      e.stopWorkAt ≠ none →
        (∀ x, db.executions.get? k = some x → x.state ≠ .active) ∧
          ∀ op : Op, ¬ op.letsOn rt db k := by
  intro db k j e hj he hstop
  have hquiet : Quiet db := Reachable.quiet ⟨ops, rfl⟩
  refine ⟨fun x hx hactive => hstop (hquiet k x j e hx hactive hj he), fun op hop => ?_⟩
  obtain ⟨j', e', hj', he', hnone, -⟩ := hop.going.unstopped
  obtain rfl := Option.some.inj (hj.symm.trans hj')
  obtain rfl := Option.some.inj (he.symm.trans he')
  exact hstop hnone

/-- A claim of a job with control, and stop-work of its engagement. -/
def stopWorkOps : List Op := [
  bySession (.provision exampleProvision),
  bySession (.engagement (.create ⟨"e1", "o1", "bug_bounty", "active", none, none, none⟩)),
  bySession (.job (.create "e1" ⟨"j1", "subfinder", "scope", .obj [], none, false⟩)),
  byRunner (.job (.claim "j1" (some ⟨"r1", "https://map.example.org", false, none, none⟩)
    "token-1")),
  bySession (.engagement (.engageStopWork "e1"))]

omit [Unicode] in
theorem stopWork_holds_claimed : ∃ x,
    (@after Unicode.ascii exampleRuntime stopWorkOps .empty).executions.get? "j1" = some x ∧
      x.state ≠ .active ∧ ∀ op : Op, ¬ @Op.letsOn Unicode.ascii op exampleRuntime
        (@after Unicode.ascii exampleRuntime stopWorkOps .empty) "j1" := by
  let _ := Unicode.ascii
  let db := after exampleRuntime stopWorkOps .empty
  have hexecution : (db.executions.get? "j1").isSome = true := by decide +kernel
  have hjob : (db.jobs.get? "j1").map ScanJob.programId = some "e1" := by decide +kernel
  have hstop : (db.engagements.get? "e1").map (fun e => e.stopWorkAt.isSome) = some true := by
    decide +kernel
  obtain ⟨x, hx⟩ := Option.isSome_iff_exists.mp hexecution
  obtain ⟨j, hj, hprogram⟩ := Option.map_eq_some_iff.mp hjob
  obtain ⟨e, he, hstopped⟩ := Option.map_eq_some_iff.mp hstop
  obtain ⟨hidle, hrefused⟩ := stopWork_holds exampleRuntime stopWorkOps "j1" j e hj
    (hprogram.symm ▸ he) (Option.isSome_iff_ne_none.mp hstopped)
  exact ⟨x, hx, hidle x hx, hrefused⟩

/-! ## Executions that lost their lease -/

/-- The execution of the job was given up: it is not active, and this is its last lease. -/
def Db.retired (db : Db) (k : String) (expiresAt : Instant) : Prop :=
  ∃ x, db.executions.get? k = some x ∧ x.state ≠ .active ∧ x.expiresAt = expiresAt

/-- A lease is renewed only while its execution is active. -/
theorem Change.lease_kept {db db' : Db} {es : List Event} (h : Change rt db es db') {k : String}
    {x x' : JobExecution} (hx : db.executions.get? k = some x)
    (hx' : db'.executions.get? k = some x') (hstate : x.state ≠ .active) :
    x'.expiresAt = x.expiresAt := by
  have hput : ∀ {r old : JobExecution}, (db.executions.put r).get? k = some x' →
      db.executions.get? (Keyed.key r) = some old →
      (old.state ≠ .active → r.expiresAt = old.expiresAt) → x'.expiresAt = x.expiresAt :=
    fun hput hold hr => by
      rcases Table.of_get?_put hold hput with ⟨rfl, rfl⟩ | ⟨-, hsame⟩
      · obtain rfl := Option.some.inj (hold.symm.trans hx)
        exact hr hstate
      · rw [Option.some.inj (hsame.symm.trans hx)]
  cases h with
  | dropped keep =>
    have hx' : (db.executions.filter fun x => (db.jobs.get? x.jobId).any keep).get? k =
      some x' := hx'
    rw [Table.get?_filter, Option.filter_eq_some_iff] at hx'
    rw [Option.some.inj (hx'.1.symm.trans hx)]
  | halted now stored =>
    rw [Table.get?_map, hx, Option.map_some, Option.some.injEq] at hx'
    rw [← hx']
    unfold Db.halt JobExecution.requestCancel
    split <;> [split; skip] <;> rfl
  | held stored holds =>
    refine hput hx' (stored_key stored ?_) fun hold => ?_
    · obtain ⟨state, expiresAt, hrow⟩ := holds.row
      rw [hrow]
      rfl
    · exact holds.lease.elim id fun h => absurd h.1 hold
  | finished o now message execution => exact hput hx' (stored_key execution rfl) fun _ => rfl
  | claimed claims =>
    rcases claims.executions with hsame | ⟨y, -, hinsert⟩
    · have hx' := (congrArg (fun t => t.get? k) hsame).symm.trans hx'
      rw [Option.some.inj (hx'.symm.trans hx)]
    · rw [Option.some.inj (hx'.symm.trans (Table.get?_insert_of_get? hinsert hx))]
  | issued issues =>
    rw [Option.some.inj (hx'.symm.trans (Table.get?_insert_of_get? issues.executions hx))]
  | renewed renews =>
    obtain ⟨user, hl⟩ := renews.live
    exact hput hx' renews.stored_key fun hold => absurd hl.active hold
  | concluded reports => exact hput hx' (stored_key reports.execution rfl) fun _ => rfl
  | ended reports => exact hput hx' (stored_key reports.execution rfl) fun _ => rfl
  | _ => rw [Option.some.inj (hx'.symm.trans hx)]

theorem Sound.retired_step {db db' : Db} {es : List Event} (hdb : Sound db)
    (h : Change rt db es db') {k : String} {expiresAt : Instant} (hk : db.retired k expiresAt) :
    db'.deleted k ∨ db'.retired k expiresAt := by
  obtain ⟨x, hx, hstate, rfl⟩ := hk
  rcases h.execution hdb.matched hx with ⟨hnone, -⟩ | ⟨x', hx', hstep⟩
  · obtain ⟨j, hj, -⟩ := hdb.matched k x hx
    exact .inl ⟨h.ids_subset (hdb.known.job hj).1, hnone⟩
  · exact .inr ⟨x', hx', fun hactive => hstate (hstep.active hactive),
      h.lease_kept hx hx' hstate⟩

end VardrMap
