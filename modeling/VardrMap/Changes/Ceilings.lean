import VardrMap.Changes.Dependencies

/-!
# Rate ceilings

The ceiling of an engagement is enforced where a job is queued. The request of a job is never
written again, so a job that enters running keeps the ceiling of the moment it was queued; a
ceiling that was lowered since does not bind it.
-/
namespace VardrMap
open Lib

variable [Unicode] {rt : Runtime}

/-- The rate of the job is at most the ceiling. -/
def ScanJob.WithinRate (j : ScanJob) (ceiling : Option ℤ) : Prop :=
  RateWithin ceiling j.toolType j.config

/-! ## The request of a stored job -/

/-- A job that is stored after changes was stored before them, or they queued it; its request
stays. -/
theorem Changes.requested {db db' : Db} {es : List Event} (h : Changes rt db es db') {k : String}
    {j' : ScanJob} (hj' : db'.jobs.get? k = some j') :
    (∃ j, db.jobs.get? k = some j ∧ SameRequest j j') ∨
      ∃ j, j.id = k ∧ .queued j ∈ es ∧ SameRequest j j' := by
  let inv (fs : List Event) (db₁ : Db) : Prop := ∀ j₁, db₁.jobs.get? k = some j₁ →
    (∃ j, db.jobs.get? k = some j ∧ SameRequest j j₁) ∨
      ∃ j, j.id = k ∧ .queued j ∈ fs ∧ SameRequest j j₁
  have hstart : inv [] db := fun j₁ hj₁ => .inl ⟨j₁, hj₁, .refl j₁⟩
  refine h.traceInvariant inv (fun {db₁ db₂ fs gs} hbefore hchange j₂ hj₂ => ?_) hstart j' hj'
  rcases hchange.job_row hj₂ with ⟨-, hid, -, hqueued⟩ | ⟨j₁, hj₁, -⟩
  · exact .inr ⟨j₂, hid, List.mem_append_right _ hqueued, .refl j₂⟩
  · have hsame := (hchange.job_events hj₁ hj₂).request
    rcases hbefore j₁ hj₁ with ⟨j, hj, hj₁⟩ | ⟨j, hid, hqueued, hj₁⟩
    · exact .inl ⟨j, hj, hj₁.trans hsame⟩
    · exact .inr ⟨j, hid, List.mem_append_left _ hqueued, hj₁.trans hsame⟩

theorem SameRequest.withinRate {j j' : ScanJob} (h : SameRequest j j') {ceiling : Option ℤ}
    (hj : j.WithinRate ceiling) : j'.WithinRate ceiling := by
  unfold ScanJob.WithinRate
  rw [h.toolType, h.config]
  exact hj

/-! ## Runs -/

/-- After these operations the next one queued the job, alone or in a pipeline. -/
structure QueuedBy (rt : Runtime) (earlier : List Op) (op : Op) (j : ScanJob) : Prop where
  call : (∃ id c, op.call = .job (.create id c)) ∨ ∃ id stages, op.call = .job (.pipeline id stages)
  absent : (after rt earlier .empty).jobs.get? j.id = none
  stored : ∃ j', (after rt (earlier ++ [op]) .empty).jobs.get? j.id = some j' ∧ SameRequest j' j

/-- An operation of the run queued the job, and its rate is within the ceiling that was in force
then. -/
def QueuedWithin (rt : Runtime) (ops : List Op) (j : ScanJob) : Prop :=
  ∃ earlier op e, earlier ++ [op] <+: ops ∧ QueuedBy rt earlier op j ∧
    (after rt earlier .empty).engagements.get? j.programId = some e ∧
    j.WithinRate e.maxRequestRate

/-- A longer run queued it too, and so it did the same job in a later state. -/
theorem QueuedWithin.later {ops ops' : List Op} {j j' : ScanJob} (h : QueuedWithin rt ops j)
    (hops : ops <+: ops') (hid : j'.id = j.id) (hsame : SameRequest j j') :
    QueuedWithin rt ops' j' := by
  obtain ⟨earlier, op, e, hprefix, hby, he, hrate⟩ := h
  obtain ⟨j₀, hj₀, hrequest⟩ := hby.stored
  refine ⟨earlier, op, e, hprefix.trans hops, ⟨hby.call, ?_, j₀, ?_, hrequest.trans hsame⟩, ?_,
    hsame.withinRate hrate⟩
  · rw [hid]
    exact hby.absent
  · rw [hid]
    exact hj₀
  · rw [hsame.programId]
    exact he

/-- Every stored job was queued by an operation of the run, within the ceiling of that moment. -/
theorem queuedWithin_of_stored (rt : Runtime) (ops : List Op) {k : String} {j : ScanJob}
    (hj : (after rt ops .empty).jobs.get? k = some j) : QueuedWithin rt ops j := by
  induction ops using List.reverseRecOn generalizing j with
  | nil => cases hj
  | append_singleton ops op ih =>
    obtain ⟨es, hchanges, hemits⟩ := exec_changes rt op (after rt ops .empty)
    have hid : j.id = k := Table.key_of_get? hj
    have hj' := hj
    rw [after_append] at hj'
    rcases hchanges.requested hj' with ⟨j₀, hj₀, hsame⟩ | ⟨j₀, hid₀, hqueued, hsame⟩
    · exact (ih hj₀).later (List.prefix_append ..) (hid.trans (Table.key_of_get? hj₀).symm) hsame
    · have hqueues := hemits.queued j₀ hqueued
      obtain ⟨e, he, hrate⟩ := hqueues.rate
      refine ⟨ops, op, e, List.prefix_rfl, ⟨hqueues.call, ?_, j, ?_, .refl j⟩, ?_,
        hsame.withinRate hrate⟩
      · -- a new identifier: no job had it
        have hknown : Known (after rt ops .empty) := (Reachable.sound ⟨ops, rfl⟩).1
        rw [hid, ← hid₀, Option.eq_none_iff_forall_ne_some]
        exact fun j₁ hj₁ => hqueues.fresh (hknown.job hj₁).1
      · rw [hid]
        exact hj
      · rw [hsame.programId]
        exact he

/-- A job that the operation sets to running keeps the ceiling under which it was queued. -/
def EntersWithinQueued (rt : Runtime) (ops : List Op) (op : Op) : Prop :=
  ∀ k j', (exec rt op (after rt ops .empty)).1.jobs.get? k = some j' → j'.status = .running →
    (∀ j, (after rt ops .empty).jobs.get? k = some j → j.status ≠ .running) →
    QueuedWithin rt ops j'

/-- A job that the operation sets to running keeps the ceiling that is in force. -/
def EntersWithinCurrent (rt : Runtime) (op : Op) (db : Db) : Prop :=
  ∀ k j' e, (exec rt op db).1.jobs.get? k = some j' → j'.status = .running →
    (∀ j, db.jobs.get? k = some j → j.status ≠ .running) →
    db.engagements.get? j'.programId = some e → j'.WithinRate e.maxRequestRate

/-- A job is queued at the ceiling, and the ceiling is lowered. -/
def ceilingOps : List Op := [
  .engagement (.create ⟨"e1", "o1", "pentest", "active", none, none, some 100⟩),
  .job (.create "e1" ⟨"j1", "httpx", "scope", .obj [], none, false⟩),
  .engagement (.update "e1" ⟨none, none, none, none, some (some 10)⟩)].map bySession

def ceilingClaim : Op := bySession (.job (.claim "j1" none ""))

end VardrMap
