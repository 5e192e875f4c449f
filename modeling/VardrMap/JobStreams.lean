import VardrMap.Jobs.Accepted
import VardrMap.Operations
import VardrMap.Lib.Mailboxes

/-!
# Job streams

The pages that watch an engagement get its job updates over a stream. The broker keeps a
bounded queue for each of them; requests announce updates once they are committed, and the
streams take them from their queues.
-/
namespace VardrMap
open Lib

/-! ## The broker -/

/-- An update of a job, as the broker gets it. -/
structure JobUpdate where
  jobId : String
  status : String
  deriving DecidableEq

/-- The room of a queue: `asyncio.Queue(maxsize=50)`. -/
def queueSize : ℕ := 50

/-- `sse`: who watches which engagement, and the queues. -/
abbrev Broker := Hub String JobUpdate

/-- `subscribe`. -/
def subscribe (b : Broker) (programId : String) : Broker := b.subscribe programId

/-- `unsubscribe`. -/
def unsubscribe (b : Broker) (programId : String) (queue : ℕ) : Broker :=
  b.unsubscribe programId queue

/-- `notify`. -/
def notify (b : Broker) (programId : String) (update : JobUpdate) : Broker :=
  b.notify queueSize programId update

/-! ## What is announced -/

/-- The kinds of lifecycle events that a runner posts. -/
inductive EventKind where
  | started
  | targetsResolved
  | targetStats
  | targetWarning
  | policyWarning
  | blocked
  | running
  | uploaded
  | done
  | failed
  | log
  deriving DecidableEq

def EventKind.text : EventKind → String
  | started => "started"
  | targetsResolved => "targets_resolved"
  | targetStats => "target_stats"
  | targetWarning => "target_warning"
  | policyWarning => "policy_warning"
  | blocked => "blocked"
  | running => "running"
  | uploaded => "uploaded"
  | done => "done"
  | failed => "failed"
  | log => "log"

/-- The update with the status that a job has in a database. -/
def statusUpdate (db : Db) (programId jobId : String) : Option (String × JobUpdate) :=
  (db.jobs.get? jobId).map fun job => (programId, ⟨jobId, job.status.text⟩)

variable [Unicode]

/-- What an accepted request announces: a new job, the first job of a pipeline, or a result that
was not filed before. -/
def Op.announces (op : Op) (rt : Runtime) (before after : Db) : Option (String × JobUpdate) :=
  match op.call with
  | .job (.create programId c) => statusUpdate after programId c.id
  | .job (.pipeline programId (stage :: _)) => statusUpdate after programId stage.id
  | .job (.upload jobId upload) =>
    (before.jobs.get? jobId).bind fun job =>
      match storeGateResult rt.toPlatform before job upload with
      | .ok (_, retained) =>
        if retained.alreadyProcessed then none else statusUpdate after job.programId jobId
      | .error _ => none
  | _ => none

/-- `create_job_event`: the end of a job is announced, whatever its row says. -/
def createJobEvent (p : Platform) (request : HttpRequest) (jobId : String) (kind : EventKind)
    (db : Db) : Except Refusal (Option (String × JobUpdate)) := do
  let user ← getCurrentUser p.identity db request
  let job ← lockJob db jobId user
  let _ ← writableEngagement db job.programId user
  return if kind == .done || kind == .failed then some (job.programId, ⟨jobId, kind.text⟩) else none

/-- The check that `stream_job_events` makes before it answers. -/
def openStream (p : Platform) (request : HttpRequest) (programId : String) (db : Db) :
    Except Refusal Unit := do
  let user ← getCurrentUser p.identity db request
  let _ ← getEngagement db programId user

/-! ## The server -/

/-- The database, the broker, the streams that were allowed and did not begin yet, and those
that run, each with its engagement and its queue. -/
structure Server where
  db : Db
  broker : Broker
  allowed : List String
  streams : List (String × ℕ)

def Server.initial : Server := ⟨.empty, .empty, [], []⟩

namespace Server

/-- What happens at the broker. -/
abbrev Event := Hub.Event String JobUpdate

/-- What comes to a server: requests, and the progress of the streams it answers with. -/
inductive Input where
  | request (op : Op)
  | postEvent (request : HttpRequest) (jobId : String) (kind : EventKind)
  | openStream (request : HttpRequest) (programId : String)
  | begin (programId : String)
  | poll (programId : String) (queue : ℕ)
  | close (programId : String) (queue : ℕ)

/-- Announce an update, if there is one. -/
def announce (s : Server) : Option (String × JobUpdate) → Server × List Event
  | some (programId, update) =>
    ({ s with broker := notify s.broker programId update }, [.notified programId update])
  | none => (s, [])

/-- One input: a request with what it announces, or a part of `stream_job_events`. -/
def step (rt : Runtime) (s : Server) : Input → Server × List Event
  | .request op =>
    let r := exec rt op s.db
    match r.2 with
    | .ok _ => announce { s with db := r.1 } (op.announces rt s.db r.1)
    | .error _ => ({ s with db := r.1 }, [])
  | .postEvent request jobId kind =>
    match createJobEvent rt.toPlatform request jobId kind s.db with
    | .ok update => s.announce update
    | .error _ => (s, [])
  | .openStream request programId =>
    match VardrMap.openStream rt.toPlatform request programId s.db with
    | .ok _ => ({ s with allowed := programId :: s.allowed }, [])
    | .error _ => (s, [])
  | .begin programId =>
    if s.allowed.contains programId then
      ({ s with
        broker := subscribe s.broker programId
        allowed := s.allowed.erase programId
        streams := (programId, s.broker.clients) :: s.streams },
        [.subscribed programId s.broker.clients])
    else (s, [])
  | .poll programId queue =>
    if s.streams.contains (programId, queue) then
      ({ s with broker := (s.broker.get queue).2 }, [.got queue (s.broker.get queue).1])
    else (s, [])
  | .close programId queue =>
    if s.streams.contains (programId, queue) then
      ({ s with
        broker := unsubscribe s.broker programId queue
        streams := s.streams.erase (programId, queue) },
        [.unsubscribed programId queue])
    else (s, [])

/-- The server after a run from the start, and what happened at its broker. -/
def run (rt : Runtime) (inputs : List Input) : Server × List Event :=
  inputs.foldl (fun r i => ((step rt r.1 i).1, r.2 ++ (step rt r.1 i).2)) (initial, [])

theorem run_concat (rt : Runtime) (inputs : List Input) (i : Input) :
    run rt (inputs ++ [i]) = ((step rt (run rt inputs).1 i).1,
      (run rt inputs).2 ++ (step rt (run rt inputs).1 i).2) := by
  unfold run
  rw [List.foldl_append]
  rfl

end Server

/-! ## The broker of a run -/

variable {rt : Runtime} {s : Server}

omit [Unicode] in
theorem announce_broker (s : Server) (update : Option (String × JobUpdate)) :
    Lib.Run (Hub.Step queueSize) s.broker (s.announce update).2 (s.announce update).1.broker := by
  cases update with
  | none => exact .refl _
  | some u => exact .single (.notified u.1 u.2)

/-- One input takes at most one step at the broker. -/
theorem step_broker (rt : Runtime) (s : Server) (i : Server.Input) :
    Lib.Run (Hub.Step queueSize) s.broker (s.step rt i).2 (s.step rt i).1.broker := by
  cases i with
  | request op =>
    simp only [Server.step]
    split
    · exact announce_broker { s with db := (exec rt op s.db).1 } _
    · exact .refl _
  | postEvent request jobId kind =>
    simp only [Server.step]
    split
    · exact announce_broker s _
    · exact .refl _
  | openStream request programId =>
    simp only [Server.step]
    split <;> exact .refl _
  | begin programId =>
    simp only [Server.step]
    split
    · exact .single (.subscribed programId)
    · exact .refl _
  | poll programId queue =>
    simp only [Server.step]
    split
    · exact .single (.got queue)
    · exact .refl _
  | close programId queue =>
    simp only [Server.step]
    split
    · exact .single (.unsubscribed programId queue)
    · exact .refl _

theorem run_broker (rt : Runtime) (inputs : List Server.Input) :
    Lib.Run (Hub.Step queueSize) .empty (Server.run rt inputs).2 (Server.run rt inputs).1.broker := by
  induction inputs using List.reverseRecOn with
  | nil => exact .refl _
  | append_singleton inputs i ih =>
    rw [Server.run_concat]
    exact ih.trans (step_broker rt _ i)

/-! ## Who opened a stream -/

/-- Somebody who could reach the engagement asked for a stream of it in a run. -/
def Server.Opened (rt : Runtime) (inputs : List Server.Input) (programId : String) : Prop :=
  ∃ earlier request later, inputs = earlier ++ .openStream request programId :: later ∧
    openStream rt.toPlatform request programId (Server.run rt earlier).1.db = .ok ()

theorem Server.Opened.concat {inputs : List Server.Input} {programId : String}
    (h : Server.Opened rt inputs programId) (i : Server.Input) :
    Server.Opened rt (inputs ++ [i]) programId := by
  obtain ⟨earlier, request, later, rfl, hopen⟩ := h
  exact ⟨earlier, request, later ++ [i], by simp, hopen⟩

theorem step_allowed {i : Server.Input} {programId : String}
    (h : programId ∈ (s.step rt i).1.allowed) : programId ∈ s.allowed ∨
      ∃ request, i = .openStream request programId ∧
        openStream rt.toPlatform request programId s.db = .ok () := by
  have hannounce : ∀ (s : Server) (update : Option (String × JobUpdate)),
      (s.announce update).1.allowed = s.allowed := fun s update => by
    cases update <;> rfl
  cases i with
  | request op =>
    simp only [Server.step] at h
    split at h
    · rw [hannounce] at h
      exact .inl h
    · exact .inl h
  | postEvent request jobId kind =>
    simp only [Server.step] at h
    split at h
    · rw [hannounce] at h
      exact .inl h
    · exact .inl h
  | openStream request id =>
    simp only [Server.step] at h
    split at h
    · rename_i hopen
      rcases List.mem_cons.mp h with rfl | h
      · exact .inr ⟨request, rfl, hopen⟩
      · exact .inl h
    · exact .inl h
  | begin id =>
    simp only [Server.step] at h
    split at h
    · exact .inl (List.mem_of_mem_erase h)
    · exact .inl h
  | poll id queue =>
    simp only [Server.step] at h
    split at h <;> exact .inl h
  | close id queue =>
    simp only [Server.step] at h
    split at h <;> exact .inl h

theorem step_subscribed {i : Server.Input} {programId : String} {queue : ℕ}
    (h : .subscribed programId queue ∈ (s.step rt i).2) : programId ∈ s.allowed := by
  have hannounce : ∀ (s : Server) (update : Option (String × JobUpdate)),
      .subscribed programId queue ∉ (s.announce update).2 := fun s update => by
    cases update <;> simp [Server.announce]
  cases i with
  | request op =>
    simp only [Server.step] at h
    split at h
    · exact absurd h (hannounce _ _)
    · cases h
  | postEvent request jobId kind =>
    simp only [Server.step] at h
    split at h
    · exact absurd h (hannounce _ _)
    · cases h
  | openStream request id =>
    simp only [Server.step] at h
    split at h <;> cases h
  | begin id =>
    simp only [Server.step] at h
    split at h
    · rename_i hallowed
      obtain ⟨rfl, -⟩ : programId = id ∧ queue = s.broker.clients := by simpa using h
      simpa using hallowed
    · cases h
  | poll id queue' =>
    simp only [Server.step] at h
    split at h
    · simp at h
    · cases h
  | close id queue' =>
    simp only [Server.step] at h
    split at h
    · simp at h
    · cases h

/-- A stream that is allowed, or that began, is one that was opened. -/
theorem opened_of_run (rt : Runtime) (inputs : List Server.Input) {programId : String} :
    (programId ∈ (Server.run rt inputs).1.allowed → Server.Opened rt inputs programId) ∧
      ∀ queue, .subscribed programId queue ∈ (Server.run rt inputs).2 →
        Server.Opened rt inputs programId := by
  induction inputs using List.reverseRecOn with
  | nil => exact ⟨nofun, nofun⟩
  | append_singleton inputs i ih =>
    obtain ⟨hallowed, hbegan⟩ := ih
    rw [Server.run_concat]
    refine ⟨fun h => ?_, fun queue h => ?_⟩
    · rcases step_allowed h with h | ⟨request, rfl, hopen⟩
      · exact (hallowed h).concat i
      · exact ⟨inputs, request, [], rfl, hopen⟩
    · rcases List.mem_append.mp h with h | h
      · exact (hbegan queue h).concat i
      · exact (hallowed (step_subscribed h)).concat i

/-! ## What is announced -/

/-- The job of an update is one of the engagement, when the update is announced. -/
def Db.Holds (db : Db) (programId jobId : String) : Prop :=
  ∃ j, db.jobs.get? jobId = some j ∧ j.programId = programId

omit [Unicode] in
theorem statusUpdate_eq_some {db : Db} {programId jobId : String} {u : String × JobUpdate}
    (h : statusUpdate db programId jobId = some u) : u.1 = programId ∧ u.2.jobId = jobId := by
  obtain ⟨j, -, rfl⟩ := Option.map_eq_some_iff.mp h
  exact ⟨rfl, rfl⟩

theorem enqueueStages_jobs {e : Engagement} {createdAt : Instant} {previous : Option String}
    {stages : List (JobCreate × Json)} {db db' : Db} {k : String} {j : ScanJob}
    (hj : db.jobs.get? k = some j) (h : enqueueStages e createdAt previous stages db = .ok db') :
    db'.jobs.get? k = some j := by
  induction stages generalizing previous db with
  | nil =>
    obtain rfl := Except.ok.inj h
    exact hj
  | cons stage stages ih =>
    obtain ⟨db₁, hqueue, h⟩ := bind_eq_ok h
    obtain ⟨-, jobs, hinsert, rfl⟩ := enqueue_eq_ok hqueue
    exact ih (Table.get?_insert_of_get? hinsert hj) h

theorem createJob_holds {p : Platform} {clocks : Clocks} {request : HttpRequest}
    {programId : String} {c : JobCreate} {db db' : Db} {reply : Reply}
    (h : createJob p clocks request programId c db = .ok (db', reply)) :
    db'.Holds programId c.id := by
  obtain ⟨user, huser, h⟩ := bind_eq_ok h
  obtain ⟨e, he, h⟩ := bind_eq_ok h
  obtain ⟨_, -, h⟩ := bind_eq_ok h
  obtain ⟨_, -, h⟩ := bind_eq_ok h
  obtain ⟨_, -, h⟩ := bind_eq_ok h
  obtain ⟨config, -, h⟩ := bind_eq_ok h
  dsimp only at h
  obtain ⟨_, -, h⟩ := bind_eq_ok h
  obtain ⟨warning, -, h⟩ := bind_eq_ok h
  obtain ⟨db₁, hqueue, h⟩ := bind_eq_ok h
  obtain ⟨rfl, -⟩ := Prod.mk.inj (Except.ok.inj h)
  obtain ⟨-, jobs, hinsert, rfl⟩ := enqueue_eq_ok hqueue
  have hid : e.id = programId := Table.key_of_get? (writableEngagement_eq_ok he)
  exact ⟨_, (Table.get?_insert hinsert _).trans (if_pos rfl), hid⟩

theorem createPipeline_holds {p : Platform} {clocks : Clocks} {request : HttpRequest}
    {programId : String} {stage : JobCreate} {stages : List JobCreate} {db db' : Db}
    {reply : Reply}
    (h : createPipeline p clocks request programId (stage :: stages) db = .ok (db', reply)) :
    db'.Holds programId stage.id := by
  obtain ⟨user, huser, h⟩ := bind_eq_ok h
  obtain ⟨e, he, h⟩ := bind_eq_ok h
  obtain ⟨_, -, h⟩ := bind_eq_ok h
  obtain ⟨configs, hconfigs, h⟩ := bind_eq_ok h
  obtain ⟨db₁, hqueue, h⟩ := bind_eq_ok h
  obtain ⟨rfl, -⟩ := Prod.mk.inj (Except.ok.inj h)
  rw [List.zipIdx_cons, List.mapM_cons] at hconfigs
  obtain ⟨config, -, hconfigs⟩ := bind_eq_ok hconfigs
  obtain ⟨rest, -, hconfigs⟩ := bind_eq_ok hconfigs
  obtain rfl := Except.ok.inj hconfigs
  obtain ⟨db₂, hfirst, hqueue⟩ := bind_eq_ok hqueue
  obtain ⟨-, jobs, hinsert, rfl⟩ := enqueue_eq_ok hfirst
  have hid : e.id = programId := Table.key_of_get? (writableEngagement_eq_ok he)
  have hfirst := (Table.get?_insert hinsert stage.id).trans (if_pos rfl)
  exact ⟨_, enqueueStages_jobs hfirst hqueue, hid⟩

theorem uploadJobResult_holds {p : Platform} {request : HttpRequest} {jobId : String}
    {upload : GateUpload} {db db' : Db} {reply : Reply} {j : ScanJob}
    (hj : db.jobs.get? jobId = some j)
    (h : uploadJobResult p request jobId upload db = .ok (db', reply)) :
    db'.Holds j.programId jobId := by
  obtain ⟨i, hi, -, rfl | ⟨assessment, receipt, receipts, -, -, rfl⟩⟩ := uploadJobResult_eq_ok h
  · exact ⟨j, hj, rfl⟩
  · obtain rfl := Option.some.inj (hj.symm.trans hi)
    obtain rfl : j.id = jobId := Table.key_of_get? hj
    exact ⟨{ j with assessment }, Table.get?_put_self (r := { j with assessment }) hj, rfl⟩

/-- An update that a request announces is about a job of the engagement that gets it. -/
theorem announces_holds {op : Op} {db : Db} {reply : Reply} {u : String × JobUpdate}
    (hreply : (exec rt op db).2 = .ok reply)
    (h : op.announces rt db (exec rt op db).1 = some u) :
    (exec rt op db).1.Holds u.1 u.2.jobId := by
  obtain ⟨request, clocks, call⟩ := op
  have hsettle : ∀ {commit : Commit}, (settle db commit).2 = .ok reply →
      commit = .ok ((settle db commit).1, reply) := fun {commit} hok => by
    cases commit with
    | error e => cases hok
    | ok c =>
      obtain rfl : c.2 = reply := Except.ok.inj hok
      rfl
  cases call with
  | job j =>
    cases j with
    | create programId c =>
      obtain ⟨hprogram, hjob⟩ := statusUpdate_eq_some h
      rw [hprogram, hjob]
      exact createJob_holds (hsettle hreply)
    | pipeline programId stages =>
      cases stages with
      | nil => cases h
      | cons stage stages =>
        obtain ⟨hprogram, hjob⟩ := statusUpdate_eq_some h
        rw [hprogram, hjob]
        exact createPipeline_holds (hsettle hreply)
    | upload jobId upload =>
      obtain ⟨j, hj, h⟩ := Option.bind_eq_some_iff.mp h
      split at h
      · split at h
        · cases h
        · obtain ⟨hprogram, hjob⟩ := statusUpdate_eq_some h
          rw [hprogram, hjob]
          exact uploadJobResult_holds hj (hsettle hreply)
      · cases h
    | _ => cases h
  | _ => cases h

theorem createJobEvent_holds {p : Platform} {request : HttpRequest} {jobId : String}
    {kind : EventKind} {db : Db} {u : String × JobUpdate}
    (h : createJobEvent p request jobId kind db = .ok (some u)) : db.Holds u.1 u.2.jobId := by
  obtain ⟨user, huser, h⟩ := bind_eq_ok h
  obtain ⟨j, hj, h⟩ := bind_eq_ok h
  obtain ⟨_, -, h⟩ := bind_eq_ok h
  have h := Except.ok.inj h
  split at h
  · obtain rfl := Option.some.inj h
    exact ⟨j, (lockJob_eq_ok hj).1, rfl⟩
  · cases h

/-- One input announces updates of stored jobs, to those who watch their engagement. -/
theorem step_holds {i : Server.Input} {programId : String} {u : JobUpdate}
    (h : .notified programId u ∈ (s.step rt i).2) : (s.step rt i).1.db.Holds programId u.jobId := by
  have hannounce : ∀ {s : Server} {update : Option (String × JobUpdate)},
      .notified programId u ∈ (s.announce update).2 →
        update = some (programId, u) ∧ (s.announce update).1.db = s.db := fun {s update} h => by
    cases update with
    | none => cases h
    | some v =>
      simp only [Server.announce, List.mem_singleton, Hub.Event.notified.injEq] at h
      exact ⟨congrArg some (Prod.ext h.1.symm h.2.symm), rfl⟩
  cases i with
  | request op =>
    simp only [Server.step] at h ⊢
    split at h
    · rename_i reply hreply
      obtain ⟨hupdate, hdb⟩ := hannounce h
      rw [hdb]
      exact announces_holds hreply hupdate
    · cases h
  | postEvent request jobId kind =>
    simp only [Server.step] at h ⊢
    split at h
    · rename_i update hevent
      obtain ⟨rfl, hdb⟩ := hannounce h
      rw [hdb]
      exact createJobEvent_holds hevent
    · cases h
  | openStream request id =>
    simp only [Server.step] at h
    split at h <;> cases h
  | begin id =>
    simp only [Server.step] at h
    split at h
    · simp at h
    · cases h
  | poll id queue =>
    simp only [Server.step] at h
    split at h
    · simp at h
    · cases h
  | close id queue =>
    simp only [Server.step] at h
    split at h
    · simp at h
    · cases h

/-- At some point of a run a job of an engagement was stored. -/
def Server.Stored (rt : Runtime) (inputs : List Server.Input) (programId jobId : String) : Prop :=
  ∃ earlier later, inputs = earlier ++ later ∧
    (Server.run rt earlier).1.db.Holds programId jobId

theorem stored_of_run (rt : Runtime) (inputs : List Server.Input) {programId : String}
    {u : JobUpdate} (h : .notified programId u ∈ (Server.run rt inputs).2) :
    Server.Stored rt inputs programId u.jobId := by
  induction inputs using List.reverseRecOn with
  | nil => cases h
  | append_singleton inputs i ih =>
    rw [Server.run_concat] at h
    rcases List.mem_append.mp h with h | h
    · obtain ⟨earlier, later, rfl, hholds⟩ := ih h
      exact ⟨earlier, later ++ [i], by simp, hholds⟩
    · refine ⟨inputs ++ [i], [], by simp, ?_⟩
      rw [Server.run_concat]
      exact step_holds h

/-! ## Delivery -/

omit [Unicode] in
theorem mem_published {es : List Server.Event} {programId : String} {u : JobUpdate}
    (h : u ∈ Hub.published programId es) : .notified programId u ∈ es := by
  unfold Hub.published at h
  obtain ⟨e, he, hu⟩ := List.mem_filterMap.mp h
  split at hu
  · split at hu
    · rename_i ht
      obtain rfl := Option.some.inj hu
      exact ht ▸ he
    · cases hu
  · cases hu

/-- The owner watches the engagement while another job is queued and given up. -/
def watchedInputs : List Server.Input :=
  exampleSetup.map .request ++ [
    .openStream ⟨none, some "owner"⟩ "e1",
    .begin "e1",
    .request (bySession (.job (.create "e1" ⟨"j2", "httpx", "scope", .obj [], none, false⟩))),
    .poll "e1" 0,
    .postEvent ⟨none, some "owner"⟩ "j2" .failed,
    .poll "e1" 0,
    .poll "e1" 0]

end VardrMap
