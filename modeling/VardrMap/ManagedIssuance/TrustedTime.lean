import Mathlib
import VardrMap.ManagedResults.Accepted
import VardrMap.Lib.Runs

/-!
# Trusted time

An operation reads the clock several times, and keeps the largest moment it has recorded in
the managed clock, a row that every operation shares. Operations interleave there: the entry
of one may be recorded while another one waits for its locks. The run below therefore goes
by transactions, in any order, and not by whole operations.
-/
namespace VardrMap
open Lib Policy Wire

/-! ## One operation -/

/-- A reading is the later of the wall clock and of the anchor with the elapsed time. -/
theorem Clocks.now_eq_ok {clocks : Clocks} {i : ℕ} {t : DateTime} (h : clocks.now i = .ok t) :
    t.instant = max (clocks.wall i).instant
      (clocks.anchor.instant + (clocks.monotonic i - clocks.entered)) := by
  unfold Clocks.now at h
  obtain ⟨text, -, h⟩ := bind_eq_ok h
  dsimp only at h
  obtain ⟨_, -, h⟩ := bind_eq_ok h
  obtain ⟨projected, hprojected, h⟩ := bind_eq_ok h
  rw [(DateTime.instant_utc (raise_eq_ok h)).1, DateTime.instant_later,
    DateTime.instant_plus (raise_eq_ok hprojected)]

/-- At a reading, the wall clock is behind an earlier reading of the same operation. -/
def Clocks.SteppedBack (clocks : Clocks) (k : ℕ) : Prop :=
  ∃ i < k, (clocks.wall k).instant < (clocks.wall i).instant

/-- Unless the wall clock stepped back, a later reading is no earlier. -/
theorem Clocks.now_le {clocks : Clocks} {i k : ℕ} {s t : DateTime}
    (hm : Monotone clocks.monotonic) (hik : i ≤ k) (hi : clocks.now i = .ok s)
    (hk : clocks.now k = .ok t) : clocks.SteppedBack k ∨ s.instant ≤ t.instant := by
  rw [Clocks.now_eq_ok hi, Clocks.now_eq_ok hk]
  have helapsed := hm hik
  rcases Int.lt_or_le (clocks.wall k).instant (clocks.wall i).instant with hback | hle
  · refine .inl ⟨i, lt_of_le_of_ne hik fun h => ?_, hback⟩
    rw [h] at hback
    exact lt_irrefl _ hback
  · right
    omega

/-! ## Interleaved transactions -/

/-- The recorded moment, once there is one, stays and never falls. -/
def Advances (o o' : Option Instant) : Prop := ∀ s ∈ o, ∃ t ∈ o', s ≤ t

theorem Advances.refl (o : Option Instant) : Advances o o := fun s hs => ⟨s, hs, le_rfl⟩

theorem Advances.trans {a b c : Option Instant} (h : Advances a b) (h' : Advances b c) :
    Advances a c := by
  intro s hs
  obtain ⟨t, ht, hst⟩ := h s hs
  obtain ⟨u, hu, htu⟩ := h' t ht
  exact ⟨u, hu, hst.trans htu⟩

theorem advances_of_any {o : Option Instant} {t : Instant} (h : o.any (· ≤ t)) :
    Advances o (some t) := by
  intro s hs
  obtain rfl := Option.mem_def.mp hs
  exact ⟨t, rfl, by simpa using h⟩

theorem observe_advances {clocks : Clocks} {i : ℕ} {db db' : Db}
    (h : observe clocks i db = .ok db') : Advances db.observed db'.observed := by
  obtain ⟨t, -, hle, rfl⟩ := observe_eq_ok h
  intro s hs
  rw [Option.mem_def.mp hs] at hle
  exact ⟨t.instant, rfl, by simpa using hle⟩

variable [Unicode]

/-- What a managed operation commits has advanced the clock. -/
theorem body_advances {rt : Runtime} {request : HttpRequest} {clocks : Clocks} {db db' : Db}
    {op : ManagedOp} {reply : Reply} (h : op.body rt request clocks db = .ok (db', reply)) :
    Advances db.observed db'.observed := by
  cases op with
  | review => rw [review_eq_ok h]; exact .refl _
  | register =>
    rcases register_eq_ok h with ⟨t, hle, rfl⟩ | ⟨i, hi, rfl⟩
    · exact advances_of_any hle
    · exact advances_of_any hi.advanced
  | revoke =>
    obtain ⟨job, a, t, -, -, hle, rfl⟩ := revoke_eq_ok h
    exact advances_of_any hle
  | claim =>
    obtain ⟨i, hi, rfl, -⟩ := claim_eq_ok h
    exact advances_of_any hi.advanced
  | current =>
    obtain ⟨user, l, t, -, hle, rfl⟩ := current_eq_ok h
    exact advances_of_any hle
  | refresh =>
    obtain ⟨r, hr, rfl⟩ := refresh_eq_ok h
    exact advances_of_any hr.advanced
  | consume =>
    obtain ⟨l, locked, last, hc, rfl⟩ := consume_eq_ok h
    exact advances_of_any hc.advanced
  | submit =>
    obtain ⟨o, -, rfl | ⟨row, hrow⟩⟩ := Results.submit_eq_ok h
    · exact .refl _
    · obtain ⟨assessment, receipts, results, locked, -, -, hle, rfl⟩ := hrow.committed
      exact advances_of_any hle
  | finish =>
    obtain ⟨outcome, -, h⟩ := bind_eq_ok h
    obtain ⟨o, row, -, -, -, ⟨-, rfl, -⟩ | ⟨⟨i, locked, hc⟩, -⟩⟩ := Results.finish_eq_ok h
    · exact .refl _
    · obtain ⟨finishedAt, rfl⟩ := hc.committed
      exact advances_of_any hc.advanced
  | inspectResult => rw [Results.inspect_eq_ok h]; exact .refl _
  | report =>
    obtain ⟨o, -, ⟨rfl, -⟩ | ⟨row, hrow, -⟩⟩ := Stops.report_eq_ok h
    · exact .refl _
    · obtain ⟨stops, locked, -, -, hle, rfl⟩ := hrow.committed
      exact advances_of_any hle
  | inspectStop => rw [Stops.inspect_eq_ok h]; exact .refl _
  | observe => rw [Observations.inspect_eq_ok h]; exact .refl _

/-- A managed operation that was committed. -/
structure Committed where
  request : HttpRequest
  clocks : Clocks
  op : ManagedOp
  before : Db
  after : Db

/-- The transactions of interleaved operations: the observation of some operation on entry or
after its refusal, the committed body of a managed operation, and a request of another route,
which leaves the managed clock alone. -/
inductive Transaction (rt : Runtime) : Db → List Committed → Db → Prop
  | observed {clocks : Clocks} {i : ℕ} {db db' : Db} (h : observe clocks i db = .ok db') :
    Transaction rt db [] db'
  | managed {request : HttpRequest} {clocks : Clocks} {op : ManagedOp} {db db' : Db}
      {reply : Reply} (h : op.body rt request clocks db = .ok (db', reply)) :
    Transaction rt db [⟨request, clocks, op, db, db'⟩] db'
  | other {db db' : Db} (h : db'.observed = db.observed) : Transaction rt db [] db'

theorem Transaction.advances {rt : Runtime} {db db' : Db} {es : List Committed}
    (h : Transaction rt db es db') : Advances db.observed db'.observed := by
  cases h with
  | observed h => exact observe_advances h
  | managed h => exact body_advances h
  | other h => rw [h]; exact .refl _

/-- A managed operation by itself is such a run. -/
theorem operation_transactions (rt : Runtime) (request : HttpRequest) (clocks : Clocks)
    (op : ManagedOp) (db : Db) :
    ∃ es, Lib.Run (Transaction rt) db es (op.run rt request clocks db).1 := by
  unfold ManagedOp.run
  split
  swap
  · exact ⟨[], .refl _⟩
  unfold operation
  split
  · exact ⟨[], .refl _⟩
  rename_i db₁ henter
  obtain ⟨text, -, henter⟩ := bind_eq_ok henter
  have hentered : Transaction rt _ [] _ := .observed henter
  split
  · rename_i hbody
    exact ⟨_, .tail (.single hentered) (.managed hbody)⟩
  · split
    · rename_i hexit
      exact ⟨_, .tail (.single hentered) (.observed hexit)⟩
    · exact ⟨_, .single hentered⟩

/-! ## The last checks of an operation -/

/-- A check was passed at a moment no earlier than what the operation recorded, or the wall
clock had stepped back inside the operation. -/
def Committed.Passed (c : Committed) (check : DateTime → Prop) : Prop :=
  ∃ stored k t, c.after.observed = some stored ∧ c.clocks.now k = .ok t ∧
    (c.clocks.SteppedBack k ∨ stored ≤ t.instant ∧ check t)

/-- The validity and the testing window of a context contain the moment. -/
def Timely (context : Json) (t : DateTime) : Prop :=
  ContractWire.within context "not_before" "expires_at" t = .ok true ∧
    ContractWire.within context "testing_start" "testing_end" t = .ok true

/-- Every bound of a permission and its lease lie after the moment. -/
def Ahead (job : ScanJob) (x : JobExecution) (permission : Json) (t : DateTime) : Prop :=
  t.instant < x.expiresAt ∧ ∃ ends allocation, Issuer.permissionEnds permission = .ok ends ∧
    Issuer.allocationEnd job x permission = .ok allocation ∧
    ∀ e ∈ allocation :: ends, t.instant < e

/-- The permission that a committed operation rested on. -/
def Committed.Permits (c : Committed) (rt : Runtime) (permission : Json) : Prop :=
  ∃ job body jobStatuses a result row p raw f, c.before.jobs.get? c.op.jobId = some job ∧
    Permitted rt.issuer c.before c.request job body jobStatuses a result row p raw f ∧
    permission = result.field "context"

/-- A claim, a consumption, a renewal and a completion have passed each of their checks again
after recording the time. -/
def Committed.Rechecked (c : Committed) (rt : Runtime) : Prop :=
  match c.op with
  | .claim _ _ _ => ∃ permission, c.Permits rt permission ∧ c.Passed (Timely permission)
  | .consume id _ _ _ => ∃ permission x, c.Permits rt permission ∧
      c.after.executions.get? id = some x ∧ c.Passed (Timely permission) ∧
      c.Passed fun t => t.instant < x.expiresAt
  | .refresh id _ _ => ∃ permission job x, c.Permits rt permission ∧
      c.after.jobs.get? id = some job ∧ c.after.executions.get? id = some x ∧
      c.Passed fun t => Timely permission t ∧ Ahead job x permission t
  | .finish id _ _ _ outcome _ => outcome = "completed" → c.after.results ≠ c.before.results →
      ∃ permission job x, c.Permits rt permission ∧
        c.before.jobs.get? id = some job ∧ c.before.executions.get? id = some x ∧
        c.Passed (Timely permission) ∧ c.Passed (Ahead job x permission)
  | _ => True

omit [Unicode] in
/-- A check that holds at a reading after the recorded one, unless the wall clock stepped
back. -/
theorem Committed.passed {c : Committed} {check : DateTime → Prop} {j k : ℕ} {s t : DateTime}
    (hm : Monotone c.clocks.monotonic) (hstored : c.after.observed = some s.instant)
    (hjk : j ≤ k) (hj : c.clocks.now j = .ok s) (hk : c.clocks.now k = .ok t)
    (hcheck : ¬ c.clocks.SteppedBack k → check t) : c.Passed check := by
  refine ⟨s.instant, k, t, hstored, hk, ?_⟩
  by_cases hback : c.clocks.SteppedBack k
  · exact .inl hback
  · exact .inr ⟨(Clocks.now_le hm hjk hj hk).resolve_left hback, hcheck hback⟩

theorem ApprovedAt.timely {issuer : Issuer} {clocks : Clocks} {a : ManagedApproval}
    {context : Json} {k : ℕ} (h : ApprovedAt issuer clocks a context k) :
    ∃ t, clocks.now k = .ok t ∧ Timely context t := by
  obtain ⟨t, payload, ht, hpayload⟩ := h
  exact ⟨t, ht, (ContractWire.approval_eq_ok hpayload).2⟩

omit [Unicode] in
theorem foldl_min_le {l : List ℤ} {a e : ℤ} (he : e ∈ a :: l) : l.foldl min a ≤ e := by
  induction l generalizing a e with
  | nil => simp_all
  | cons b l ih =>
    rw [List.foldl_cons]
    rcases List.mem_cons.mp he with rfl | he
    · exact (ih (List.mem_cons_self ..)).trans (min_le_left _ _)
    rcases List.mem_cons.mp he with rfl | he
    · exact (ih (List.mem_cons_self ..)).trans (min_le_right _ _)
    · exact ih (List.mem_cons_of_mem _ he)

/-- The ends of a permission are its own, the testing window's and those of its grants. -/
theorem permissionEnds_eq_ok {permission : Json} {ends : List Instant}
    (h : Issuer.permissionEnds permission = .ok ends) :
    ∃ expiresAt testingEnd grants times,
      Wire.timestamp (permission.field "expires_at") = .ok expiresAt ∧
      Wire.timestamp (permission.field "testing_end") = .ok testingEnd ∧
      (permission.field "credential_grants").iter = .ok grants ∧
      List.Forall₂ (fun grant t => Wire.timestamp (grant.field "expires_at") = .ok t) grants times ∧
      ends = expiresAt.instant :: testingEnd.instant :: times.map DateTime.instant := by
  unfold Issuer.permissionEnds at h
  obtain ⟨first, hfirst, h⟩ := bind_eq_ok h
  obtain ⟨expiresAt, hexpires, h⟩ := bind_eq_ok h
  obtain ⟨second, hsecond, h⟩ := bind_eq_ok h
  obtain ⟨testingEnd, htesting, h⟩ := bind_eq_ok h
  obtain ⟨grants, hgrants, h⟩ := bind_eq_ok h
  obtain ⟨times, htimes, h⟩ := bind_eq_ok h
  obtain rfl := Except.ok.inj h
  obtain ⟨value, hvalue, hiter⟩ := bind_eq_ok (raise_eq_ok hgrants)
  refine ⟨expiresAt, testingEnd, grants, times, by rwa [Json.item_eq_ok (raise_eq_ok hfirst)],
    by rwa [Json.item_eq_ok (raise_eq_ok hsecond)], by rwa [Json.item_eq_ok hvalue],
    (mapM_eq_ok htimes).imp fun grant t h => ?_, rfl⟩
  obtain ⟨value, hvalue, ht⟩ := bind_eq_ok h
  rwa [Json.item_eq_ok (raise_eq_ok hvalue)]

/-- A window that contains a moment contains every later one before its end. -/
theorem within_later {context : Json} {start stop : String} {s t bound : DateTime}
    (h : ContractWire.within context start stop s = .ok true) (hst : s.instant ≤ t.instant)
    (hbound : Wire.timestamp (context.field stop) = .ok bound) (hlt : t.instant < bound.instant) :
    ContractWire.within context start stop t = .ok true := by
  unfold ContractWire.within at h ⊢
  obtain ⟨first, hfirst, h⟩ := bind_eq_ok h
  obtain ⟨a, ha, h⟩ := bind_eq_ok h
  rw [hfirst]
  simp only [bind, Except.bind, ha]
  split at h
  · simp [pure, Except.pure] at h
  rw [if_neg (by omega)]
  obtain ⟨last, hlast, h⟩ := bind_eq_ok h
  obtain ⟨b, hb, h⟩ := bind_eq_ok h
  rw [Json.item_eq_ok (raise_eq_ok hlast), hb] at hbound
  obtain rfl := Except.ok.inj hbound
  simp [hlast, hb, hlt, pure, Except.pure]

/-- Before every end of a permission, a moment after a timely one is timely. -/
theorem Timely.later {context : Json} {s t : DateTime} {ends : List Instant}
    (h : Timely context s) (hst : s.instant ≤ t.instant)
    (hends : Issuer.permissionEnds context = .ok ends) (hlt : ∀ e ∈ ends, t.instant < e) :
    Timely context t := by
  obtain ⟨expiresAt, testingEnd, grants, times, hexpires, htesting, -, -, rfl⟩ :=
    permissionEnds_eq_ok hends
  exact ⟨within_later h.1 hst hexpires (hlt _ (by simp)),
    within_later h.2 hst htesting (hlt _ (by simp))⟩

omit [Unicode] in
theorem lt_of_latest {t : DateTime} {control bound : Instant}
    (h : Issuer.latest t control < bound) : t.instant < bound :=
  (le_max_left _ _).trans_lt h

theorem claim_rechecked {rt : Runtime} {request : HttpRequest} {clocks : Clocks} {db db' : Db}
    {id : String} {body : ClaimControl} {ids : Issuer.ClaimIds} {reply : Reply}
    (hm : Monotone clocks.monotonic)
    (h : rt.issuer.claim clocks request id body ids db = .ok (db', reply)) :
    (⟨request, clocks, .claim id body ids, db, db'⟩ : Committed).Rechecked rt := by
  obtain ⟨i, hi, rfl, -⟩ := claim_eq_ok h
  obtain ⟨row, p, raw, f, hp⟩ := hi.permitted
  obtain ⟨t, ht, htimely⟩ := (hi.approved 6 (by simp)).timely
  exact ⟨_, ⟨i.job, body, _, i.approval, i.result, row, p, raw, f, hi.job, hp, rfl⟩,
    Committed.passed hm rfl (by decide) hi.locked ht fun _ => htimely⟩

theorem consume_rechecked {rt : Runtime} {request : HttpRequest} {clocks : Clocks}
    {db db' : Db} {id : String} {body : ControlRequest} {ref : AttemptRef} {sha : String}
    {reply : Reply} (hm : Monotone clocks.monotonic)
    (h : rt.issuer.consume clocks request id body ref sha db = .ok (db', reply)) :
    (⟨request, clocks, .consume id body ref sha, db, db'⟩ : Committed).Rechecked rt := by
  obtain ⟨l, locked, last, hc, rfl⟩ := consume_eq_ok h
  obtain ⟨user, hl⟩ := hc.live
  obtain ⟨result, row, p, raw, f, hp, hcontext⟩ := hl.permitted
  obtain ⟨t, ht, htimely⟩ := (hc.approved 5 (by simp)).timely
  exact ⟨l.permission, l.execution,
    ⟨l.job, _, _, l.approval, result, row, p, raw, f, hl.job, hp, hcontext⟩, hl.execution,
    Committed.passed hm rfl (by decide) hc.read_locked ht fun _ => htimely,
    Committed.passed hm rfl (by decide) hc.read_locked hc.read_last fun _ =>
      lt_of_latest hc.ahead⟩

theorem refresh_rechecked {rt : Runtime} {request : HttpRequest} {clocks : Clocks}
    {db db' : Db} {id : String} {body : ControlRequest} {ref : AttemptRef} {reply : Reply}
    (hm : Monotone clocks.monotonic)
    (h : rt.issuer.refresh clocks request id body ref db = .ok (db', reply)) :
    (⟨request, clocks, .refresh id body ref, db, db'⟩ : Committed).Rechecked rt := by
  obtain ⟨r, hr, rfl⟩ := refresh_eq_ok h
  obtain ⟨user, hl⟩ := hr.live
  obtain ⟨result, row, p, raw, f, hp, hcontext⟩ := hl.permitted
  obtain ⟨s, hs, htimely⟩ := (hl.approved 3 (by simp)).timely
  have hkey : r.live.execution.jobId = id := Table.key_of_get? hl.execution
  have hstored : (db.executions.put (r.execution clocks)).get? id =
      some (r.execution clocks) := by
    rw [← hkey]
    exact Table.get?_put_self (r := r.execution clocks) (hkey.symm ▸ hl.execution)
  -- the renewed lease ends before every bound, and is ahead of the last reading
  have hlast : r.last.instant < (r.execution clocks).expiresAt := lt_of_latest hr.ahead
  have hbounds : ∀ e ∈ r.allocation :: r.ends, r.last.instant < e := fun e he =>
    hlast.trans_le (hr.expiresAt_le.trans (foldl_min_le he))
  refine ⟨r.live.permission, r.live.job, r.execution clocks,
    ⟨r.live.job, _, _, r.live.approval, result, row, p, raw, f, hl.job, hp, hcontext⟩, hl.job,
    hstored, Committed.passed hm rfl (by decide) hr.locked hr.last fun hback => ⟨?_, hlast,
      r.ends, r.allocation, hr.ends, hr.allocation, hbounds⟩⟩
  have hle := (Clocks.now_le hm (by decide : 3 ≤ 6) hs hr.last).resolve_left hback
  exact htimely.later hle hr.ends fun e he => hbounds e (List.mem_cons_of_mem _ he)

theorem finish_rechecked {rt : Runtime} {request : HttpRequest} {clocks : Clocks}
    {db db' : Db} {id : String} {body : ControlRequest} {r : Report} {receipt : String}
    {reply : Reply} (hm : Monotone clocks.monotonic)
    (h : Results.finish rt.issuer clocks request id body r receipt .completed db =
      .ok (db', reply)) (hchanged : db'.results ≠ db.results) :
    ∃ permission job x,
      (⟨request, clocks, .finish id body r receipt "completed" true, db, db'⟩ :
        Committed).Permits rt permission ∧
      db.jobs.get? id = some job ∧ db.executions.get? id = some x ∧
      (⟨request, clocks, .finish id body r receipt "completed" true, db, db'⟩ :
        Committed).Passed (Timely permission) ∧
      (⟨request, clocks, .finish id body r receipt "completed" true, db, db'⟩ :
        Committed).Passed (Ahead job x permission) := by
  obtain ⟨o, row, ho, -, -, ⟨-, rfl, -⟩ | ⟨⟨i, locked, hc⟩, -⟩⟩ := Results.finish_eq_ok h
  · exact absurd rfl hchanged
  obtain ⟨finishedAt, rfl⟩ := hc.committed
  obtain ⟨rfl, a, permission, hcompletes⟩ := hc.completes rfl
  obtain ⟨result, erow, p, raw, f, hp, hcontext⟩ := hcompletes.permitted
  obtain ⟨t, ends, allocation, ht, hends, hallocation, hlease, hbounds⟩ := hcompletes.after.bounds
  obtain ⟨u, hu, htimely⟩ := hcompletes.after.approved.timely
  refine ⟨permission, o.job, o.execution,
    ⟨o.job, _, _, a, result, erow, p, raw, f, ho.job, hp, hcontext⟩, ho.job, ho.execution,
    Committed.passed hm rfl (by decide) hc.read_locked hu fun _ => htimely,
    Committed.passed hm rfl (by decide) hc.read_locked ht fun _ => ⟨lt_of_latest hlease,
      ends, allocation, hends, hallocation, fun e he => ?_⟩⟩
  exact (lt_of_latest hbounds).trans_le (foldl_min_le he)

/-- Every committed claim, consumption, renewal and completion has rechecked its bounds. -/
theorem body_rechecked {rt : Runtime} {request : HttpRequest} {clocks : Clocks} {db db' : Db}
    {op : ManagedOp} {reply : Reply} (hm : Monotone clocks.monotonic)
    (h : op.body rt request clocks db = .ok (db', reply)) :
    (⟨request, clocks, op, db, db'⟩ : Committed).Rechecked rt := by
  cases op with
  | claim => exact claim_rechecked hm h
  | consume => exact consume_rechecked hm h
  | refresh => exact refresh_rechecked hm h
  | finish id body r receipt outcome confirmed =>
    rintro rfl hchanged
    obtain ⟨o, ho, h⟩ := bind_eq_ok h
    have ho := (Option.filter_eq_some_iff.mp (found_eq_ok ho)).1
    obtain rfl : Outcome.completed = o := Option.some.inj ho
    exact finish_rechecked hm h hchanged
  | _ => trivial

end VardrMap
