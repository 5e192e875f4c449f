import Mathlib.Algebra.GroupWithZero.Nat
import VardrMap.Changes.Sound

/-!
# Budgets

Three ledgers of an engagement: the executions that hold capacity, the targets spent, and the
seconds allocated. The first never exceeds its limit in use; the others are the sums of what
the admitted claims charged, and never exceed theirs.
-/
namespace VardrMap
open Lib

variable [Unicode] {rt : Runtime}

/-! ## Capacity -/

/-- The execution holds capacity of the engagement. -/
def Db.holds (db : Db) (programId : String) (x : JobExecution) : Bool :=
  x.capacityReserved && (db.jobs.get? x.jobId).any fun j => j.programId == programId

omit [Unicode] in
theorem reserved_eq (db : Db) (programId : String) :
    db.reserved programId = db.executions.count (db.holds programId) := rfl

omit [Unicode] in
/-- The capacity of an engagement that was never created is unused. -/
theorem reserved_unknown {db : Db} (hdb : Known db) {k : String} (hk : k ∉ db.ids) :
    db.reserved k = 0 := by
  refine List.countP_eq_zero.mpr fun x hx => ?_
  simp only [Bool.and_eq_true, not_and]
  intro _
  cases hj : db.jobs.get? x.jobId with
  | none => simp
  | some j =>
    have hne : j.programId ≠ k := fun h => hk (h ▸ (hdb.job hj).2)
    simpa using hne

section
variable {db db' : Db} {k : String}

omit [Unicode] in
/-- A job keeps its engagement. -/
theorem any_program_put {t : Table ScanJob} {r old : ScanJob}
    (hold : t.get? (Keyed.key r) = some old) (hprogram : r.programId = old.programId) (i : String) :
    (((t.put r).get? i).any fun j => j.programId == k) =
      ((t.get? i).any fun j => j.programId == k) := by
  rw [Table.get?_put hold]
  split
  · rename_i hk
    rw [← hk, hold, Option.any_some, Option.any_some, hprogram]
  · rfl

omit [Unicode] in
theorem holds_put {r old : ScanJob} (hjobs : db'.jobs = db.jobs.put r)
    (hold : db.jobs.get? (Keyed.key r) = some old) (hprogram : r.programId = old.programId)
    (x : JobExecution) : db'.holds k x = db.holds k x := by
  unfold Db.holds
  rw [hjobs, any_program_put hold hprogram]

omit [Unicode] in
/-- An execution is replaced by one that holds no more. -/
theorem reserved_put_le {x x' : JobExecution} (hexecutions : db'.executions = db.executions.put x')
    (hx : db.executions.get? (Keyed.key x') = some x) (hholds : ∀ y, db'.holds k y = db.holds k y)
    (hcapacity : x'.capacityReserved = true → x.capacityReserved = true) :
    db'.reserved k ≤ db.reserved k := by
  have hid : x.jobId = x'.jobId := Table.key_of_get? hx
  have hcount := Table.count_put hx (db.holds k)
  rw [reserved_eq, reserved_eq, hexecutions, show db'.holds k = db.holds k from funext hholds]
  have hle : db.holds k x' = true → db.holds k x = true := fun h => by
    unfold Db.holds at h ⊢
    rw [Bool.and_eq_true] at h ⊢
    rw [hid]
    exact ⟨hcapacity h.1, h.2⟩
  by_cases hx' : db.holds k x' = true
  · rw [if_pos hx', if_pos (hle hx')] at hcount
    omega
  · rw [if_neg hx'] at hcount
    omega

omit [Unicode] in
/-- An execution starts, and its capacity was available in the engagement of its job. -/
theorem reserved_start_le {x : JobExecution} {j : ScanJob} {e : Engagement}
    (hinsert : db.executions.insert x = some db'.executions)
    (hholds : ∀ y, db'.holds k y = db.holds k y) (hj : db.jobs.get? x.jobId = some j)
    (hprogram : e.id = j.programId)
    (hlimit : x.capacityReserved = true → db.reserved e.id < e.concurrencyLimit.getD 0) :
    db'.reserved k ≤ db.reserved k ∨
      e.id = k ∧ db'.reserved k ≤ e.concurrencyLimit.getD 0 := by
  have hcount := Table.count_insert hinsert (db.holds k)
  rw [reserved_eq, reserved_eq, show db'.holds k = db.holds k from funext hholds]
  by_cases hx : db.holds k x = true
  · rw [if_pos hx] at hcount
    unfold Db.holds at hx
    rw [hj, Option.any_some, Bool.and_eq_true] at hx
    have hk : e.id = k := hprogram.trans (eq_of_beq hx.2)
    have hlt := hlimit hx.1
    rw [hk, reserved_eq] at hlt
    exact .inr ⟨hk, by omega⟩
  · rw [if_neg hx] at hcount
    exact .inl (by omega)

omit [Unicode] in
theorem reserved_le_of_holds (hexecutions : db'.executions = db.executions)
    (hholds : ∀ x ∈ db.executions.rows, db'.holds k x = db.holds k x) :
    db'.reserved k ≤ db.reserved k := by
  rw [reserved_eq, reserved_eq, hexecutions]
  exact List.countP_mono_left fun x hx h => by rwa [← hholds x hx]

end

omit [Unicode] in
/-- A halt changes the state alone. -/
theorem halt_eq (db : Db) (programId : String) (x : JobExecution) :
    ∃ state, db.halt programId x = { x with state } := by
  unfold Db.halt JobExecution.requestCancel
  split
  · split
    · exact ⟨.cancelRequested, rfl⟩
    · exact ⟨x.state, rfl⟩
  · exact ⟨x.state, rfl⟩

/-- The capacity in use grows by a claim only, and then within the limit. -/
theorem Change.reserved {db db' : Db} {es : List Event} (hmatched : Matched db)
    (h : Change rt db es db') (k : String) : db'.reserved k ≤ db.reserved k ∨
      (∃ c, .charged c ∈ es) ∧
        ∃ e, db.engagements.get? k = some e ∧ db'.reserved k ≤ e.concurrencyLimit.getD 0 := by
  cases h with
  | dropped keep =>
    left
    refine (List.countP_mono_left fun x hx h => ?_).trans (Table.count_filter_le _ _ _)
    simp only [Bool.and_eq_true] at h ⊢
    refine ⟨h.1, ?_⟩
    have hkept : ((db.jobs.filter keep).get? x.jobId).any (fun j => j.programId == k) = true := h.2
    rw [Table.get?_filter] at hkept
    cases hj : db.jobs.get? x.jobId with
    | none => simp [hj] at hkept
    | some j => cases hj' : keep j <;> simp_all [Option.filter]
  | halted now stored =>
    left
    rename_i e
    refine (Table.count_map (halt_jobId db e.id) fun x hx => ?_).le
    change Db.holds db k (db.halt e.id x) = db.holds k x
    obtain ⟨state, hrow⟩ := halt_eq db e.id x
    rw [hrow]
    rfl
  | queued queued stored =>
    left
    refine reserved_le_of_holds rfl fun x hx => ?_
    obtain ⟨j, hj, -⟩ := hmatched _ _ (Table.get?_of_mem hx)
    have hj : db.jobs.get? x.jobId = some j := hj
    unfold Db.holds
    simp only [Table.get?_insert_of_get? stored hj, hj]
  | patched rows =>
    left
    refine reserved_le_of_holds rfl fun x hx => ?_
    obtain ⟨j, hj, -⟩ := hmatched _ _ (Table.get?_of_mem hx)
    have hj : db.jobs.get? x.jobId = some j := hj
    obtain ⟨j', hj', hpatched⟩ := rows.forward hj
    obtain ⟨status, completedAt, errorMessage, assessment, rfl⟩ := hpatched.row
    unfold Db.holds
    simp only [hj, hj', Option.any_some]
  | held stored holds =>
    left
    obtain ⟨state, expiresAt, rfl⟩ := holds.row
    exact reserved_put_le rfl (stored_key stored rfl) (fun _ => rfl) fun h => h
  | finished o now message execution opened job =>
    exact .inl (reserved_put_le rfl (stored_key execution rfl)
      (holds_put rfl (stored_key job rfl) rfl) fun h => by cases h)
  | claimed claims =>
    have hadmits := claims.admits
    have hid : _ = _ := Table.key_of_get? hadmits.engagement
    have hprogram : ∀ {running j : ScanJob}, (∃ startedAt caseSnapshot, running = { j with
        status := .running, startedAt := some startedAt, caseSnapshot }) →
        running.programId = j.programId := by
      rintro running j ⟨startedAt, caseSnapshot, rfl⟩
      rfl
    have hprogram := hprogram claims.running
    rcases claims.executions with hsame | ⟨x, hstarts, hinsert⟩
    · refine .inl (reserved_le_of_holds hsame fun y _ => ?_)
      exact holds_put rfl claims.stored_key hprogram y
    · have hj : db.jobs.get? x.jobId = some _ := hstarts.jobId ▸ hadmits.job
      refine (reserved_start_le hinsert (fun y => ?_) hj hid hstarts.reserved).imp_right fun hle => ?_
      · exact holds_put rfl claims.stored_key hprogram y
      · exact ⟨⟨_, List.mem_cons_self ..⟩, _, hle.1 ▸ stored_key hadmits.engagement rfl, hle.2⟩
  | registered registers =>
    exact .inl (reserved_le_of_holds rfl fun x _ => holds_put rfl registers.stored_key rfl x)
  | issued issues =>
    have hid : _ = _ := Table.key_of_get? issues.engagement
    obtain ⟨hjob, -, hreserved, -⟩ := issue_eq_ok issues.issue
    have hlt := beforeClaim_eq_ok issues.beforeClaim (by simpa using issues.concurrencyBudget)
    refine (reserved_start_le issues.executions (fun y => ?_) (hjob ▸ issues.job) hid
      fun _ => hlt).imp_right fun hle => ?_
    · exact holds_put rfl issues.running_key rfl y
    · exact ⟨⟨_, List.mem_cons_self ..⟩, _, hle.1 ▸ stored_key issues.engagement rfl, hle.2⟩
  | renewed renews =>
    exact .inl (reserved_put_le rfl renews.stored_key (fun _ => rfl) fun h => h)
  | retained reports =>
    refine .inl (reserved_le_of_holds rfl fun x _ => ?_)
    exact holds_put rfl (stored_key reports.job (by rfl)) (by rfl) x
  | concluded reports =>
    exact .inl (reserved_put_le rfl (stored_key reports.execution rfl)
      (holds_put rfl (stored_key reports.job rfl) rfl) fun h => by cases h)
  | ended reports =>
    exact .inl (reserved_put_le rfl (stored_key reports.execution rfl)
      (holds_put rfl (stored_key reports.job rfl) rfl) fun h => by cases h)
  | _ => exact .inl le_rfl

/-! ## Spending -/

/-- A change charges one claim, to the engagement that it writes; or it emits no charge, and
the counters of stored engagements stay. -/
theorem Change.charges {db db' : Db} {es : List Event} (h : Change rt db es db') :
    (es.filterMap Event.charge? = [] ∧ ∀ c, .charged c ∉ es) ∨
      ∃ j e e' c, Admits db j e e' c ∧ es.filterMap Event.charge? = [c] ∧
        db'.engagements = db.engagements.put e' := by
  cases h with
  | claimed claims => exact .inr ⟨_, _, _, _, claims.admits, rfl, rfl⟩
  | issued issues => exact .inr ⟨_, _, _, _, issues.admits, rfl, rfl⟩
  | patched rows emits moves =>
    refine .inl ⟨List.filterMap_eq_nil_iff.mpr fun ev hev => ?_, fun c hc => ?_⟩
    · obtain ⟨j, status, rfl⟩ := moves ev hev
      rfl
    · obtain ⟨j, status, hj⟩ := moves _ hc
      cases hj
  | provisioned => exact .inl ⟨rfl, fun c hc => by simp at hc⟩
  | registered => exact .inl ⟨rfl, fun c hc => by simp at hc⟩
  | queued => exact .inl ⟨rfl, fun c hc => by simp at hc⟩
  | _ => exact .inl ⟨rfl, fun c => List.not_mem_nil⟩

/-- What the charges of an engagement add up to. -/
def chargedTo (cs : List Charge) (programId : String) (amount : Charge → ℕ) : ℕ :=
  ((cs.filter fun c => c.engagementId == programId).map amount).sum

omit [Unicode] in
@[simp] theorem chargedTo_append (cs ds : List Charge) (programId : String)
    (amount : Charge → ℕ) : chargedTo (cs ++ ds) programId amount =
      chargedTo cs programId amount + chargedTo ds programId amount := by
  simp [chargedTo]

omit [Unicode] in
@[simp] theorem chargedTo_nil (programId : String) (amount : Charge → ℕ) :
    chargedTo [] programId amount = 0 := rfl

omit [Unicode] in
theorem chargedTo_self (c : Charge) (amount : Charge → ℕ) :
    chargedTo [c] c.engagementId amount = amount c := by
  simp [chargedTo]

omit [Unicode] in
theorem chargedTo_ne {cs : List Charge} {programId : String} (amount : Charge → ℕ)
    (h : ∀ c ∈ cs, c.engagementId ≠ programId) : chargedTo cs programId amount = 0 := by
  have hnil : (cs.filter fun c => c.engagementId == programId) = [] :=
    List.filter_eq_nil_iff.mpr fun c hc => by simpa using h c hc
  rw [chargedTo, hnil]
  rfl

/-- The ledgers of an engagement, after these charges. -/
structure Balanced (cs : List Charge) (db : Db) (e : Engagement) : Prop where
  capacity : db.reserved e.id ≤ e.concurrencyLimit.getD 0
  targets : e.targetsSpent = chargedTo cs e.id Charge.targets
  targets_le : e.targetsSpent ≤ e.targetLimit.getD 0
  seconds : e.durationAllocated = chargedTo cs e.id Charge.seconds
  seconds_le : e.durationAllocated ≤ e.durationLimit.getD 0

/-- The ledgers of all engagements, after these charges. -/
structure Budgets (cs : List Charge) (db : Db) : Prop where
  known : ∀ c ∈ cs, c.engagementId ∈ db.ids
  balanced : ∀ k e, db.engagements.get? k = some e → Balanced cs db e

omit [Unicode] in
theorem Budgets.empty : Budgets [] .empty := ⟨nofun, fun _ _ h => by cases h⟩

/-- Stored counters and limits after a change without a charge. -/
theorem EngagementStep.uncharged {db db' : Db} {es : List Event} {e e' : Engagement}
    (h : EngagementStep db db' es e e') (hes : ∀ c, .charged c ∉ es) :
    e'.targetsSpent = e.targetsSpent ∧ e'.durationAllocated = e.durationAllocated ∧
      (e'.targetsSpent ≤ e'.targetLimit.getD 0 ∨ e'.targetLimit = e.targetLimit) ∧
      (e'.durationAllocated ≤ e'.durationLimit.getD 0 ∨ e'.durationLimit = e.durationLimit) ∧
      (db.reserved e.id = 0 ∨ e'.concurrencyLimit = e.concurrencyLimit) := by
  cases h with
  | same => exact ⟨rfl, rfl, .inr rfl, .inr rfl, .inr rfl⟩
  | amended amends =>
    exact ⟨amends.targetsSpent_eq, amends.durationAllocated_eq, amends.targets_le,
      amends.duration_le, amends.idle⟩
  | halted now =>
    unfold Engagement.halted Engagement.advance Engagement.bump
    split <;> exact ⟨rfl, rfl, .inr rfl, .inr rfl, .inr rfl⟩
  | charged admits emitted => exact absurd emitted (hes _)

/-- The ledgers after a change without a charge. -/
theorem Balanced.uncharged {db db' : Db} {cs : List Charge} {es : List Event} {e e' : Engagement}
    (he : Balanced cs db e) (hid : e'.id = e.id) (h : EngagementStep db db' es e e')
    (hes : ∀ c, .charged c ∉ es) (hreserved : db'.reserved e.id ≤ db.reserved e.id) :
    Balanced cs db' e' := by
  obtain ⟨htargets, hseconds, htargets_le, hseconds_le, hidle⟩ := h.uncharged hes
  constructor
  · rw [hid]
    rcases hidle with hzero | hlimit
    · omega
    · rw [hlimit]
      exact hreserved.trans he.capacity
  · rw [hid, htargets, he.targets]
  · rcases htargets_le with hle | hlimit
    · exact hle
    · rw [htargets, hlimit]
      exact he.targets_le
  · rw [hid, hseconds, he.seconds]
  · rcases hseconds_le with hle | hlimit
    · exact hle
    · rw [hseconds, hlimit]
      exact he.seconds_le

omit [Unicode] in
/-- The ledgers of the engagement that a claim charges. -/
theorem Balanced.charged {db db' : Db} {cs : List Charge} {j : ScanJob} {e e' : Engagement}
    {c : Charge} (he : Balanced cs db e) (h : Admits db j e e' c)
    (hreserved : db'.reserved e.id ≤ e.concurrencyLimit.getD 0) :
    Balanced (cs ++ [c]) db' e' := by
  have htargets_le := h.targets_le
  have hseconds_le := h.seconds_le
  rw [h.charged] at htargets_le hseconds_le ⊢
  have hself : ∀ amount, chargedTo [c] e.id amount = amount c := fun amount => by
    rw [← h.engagementId]
    exact chargedTo_self c amount
  constructor
  · exact hreserved
  · simp only [chargedTo_append, hself, he.targets]
  · rcases htargets_le with hzero | hle
    · simpa only [hzero, Nat.add_zero] using he.targets_le
    · exact hle
  · simp only [chargedTo_append, hself, he.seconds]
  · rcases hseconds_le with hzero | hle
    · simpa only [hzero, Nat.add_zero] using he.seconds_le
    · exact hle

omit [Unicode] in
/-- Charges of another engagement. -/
theorem Balanced.others {db db' : Db} {cs : List Charge} {e : Engagement} {c : Charge}
    (he : Balanced cs db e) (hne : c.engagementId ≠ e.id)
    (hreserved : db'.reserved e.id ≤ e.concurrencyLimit.getD 0) :
    Balanced (cs ++ [c]) db' e := by
  have hzero : ∀ amount, chargedTo [c] e.id amount = 0 := fun amount =>
    chargedTo_ne amount fun d hd => by rwa [List.mem_singleton.mp hd]
  constructor
  · exact hreserved
  · simp only [chargedTo_append, hzero, Nat.add_zero, he.targets]
  · exact he.targets_le
  · simp only [chargedTo_append, hzero, Nat.add_zero, he.seconds]
  · exact he.seconds_le

theorem Budgets.step {db db' : Db} {cs : List Charge} {es : List Event} (hknown : Known db)
    (hmatched : Matched db) (hdb : Budgets cs db) (h : Change rt db es db') :
    Budgets (cs ++ es.filterMap Event.charge?) db' := by
  rcases h.charges with ⟨hnone, hes⟩ | ⟨j, e, e', c, hadmits, hone, hput⟩
  · have hreserved : ∀ k, db'.reserved k ≤ db.reserved k := fun k =>
      (h.reserved hmatched k).elim id fun ⟨⟨c, hc⟩, _⟩ => absurd hc (hes c)
    rw [hnone, List.append_nil]
    refine ⟨fun c hc => h.ids_subset (hdb.known c hc), fun k e' he' => ?_⟩
    obtain rfl : e'.id = k := Table.key_of_get? he'
    rcases h.engagement_row he' with ⟨hfresh, -, htargets, hseconds⟩ | ⟨e, he, hstep⟩
    · -- nobody was charged for an engagement before it was there
      have hzero : ∀ amount, chargedTo cs e'.id amount = 0 := fun amount =>
        chargedTo_ne amount fun c hc hid => hfresh (hid ▸ hdb.known c hc)
      have hcapacity := hreserved e'.id
      rw [reserved_unknown hknown hfresh] at hcapacity
      exact {
        capacity := hcapacity.trans (Nat.zero_le _)
        targets := htargets.trans (hzero _).symm
        targets_le := htargets.le.trans (Nat.zero_le _)
        seconds := hseconds.trans (hzero _).symm
        seconds_le := hseconds.le.trans (Nat.zero_le _) }
    · have hid : e'.id = e.id := (Table.key_of_get? he).symm
      exact (hdb.balanced _ e he).uncharged hid hstep hes (hreserved e.id)
  · have hid : e.id = j.programId := Table.key_of_get? hadmits.engagement
    have he : db.engagements.get? e.id = some e := stored_key hadmits.engagement rfl
    have hcapacity : ∀ k x, db.engagements.get? k = some x →
        db'.reserved x.id ≤ x.concurrencyLimit.getD 0 := fun k x hx => by
      obtain rfl : x.id = k := Table.key_of_get? hx
      rcases h.reserved hmatched x.id with hle | ⟨-, y, hy, hle⟩
      · exact hle.trans (hdb.balanced _ x hx).capacity
      · obtain rfl := Option.some.inj (hx.symm.trans hy)
        exact hle
    rw [hone]
    refine ⟨fun d hd => h.ids_subset ?_, fun k x hx => ?_⟩
    · rcases List.mem_append.mp hd with hd | hd
      · exact hdb.known d hd
      · rw [List.mem_singleton.mp hd, hadmits.engagementId]
        exact hknown.engagement he
    · rw [hput] at hx
      rcases Table.of_get?_put hadmits.stored_key hx with ⟨rfl, rfl⟩ | ⟨hk, hx⟩
      · exact (hdb.balanced _ e he).charged hadmits (hcapacity _ e he)
      · refine (hdb.balanced _ x hx).others (fun hsame => hk ?_) (hcapacity _ x hx)
        have hkey : e'.id = e.id := by rw [hadmits.charged]
        have hkx : x.id = k := Table.key_of_get? hx
        exact hkey.trans (hadmits.engagementId.symm.trans (hsame.trans hkx))

/-! ## Runs -/

/-- The charges of the claims that a run admits, in order. -/
def charges (rt : Runtime) : List Op → Db → List Charge
  | [], _ => []
  | op :: ops, db => (admitted rt op db).toList ++ charges rt ops (exec rt op db).1

/-- The ledgers are kept by a run. -/
theorem budgets_after (ops : List Op) {db : Db} {cs : List Charge} (hdb : Reachable rt db)
    (hbudgets : Budgets cs db) : Budgets (cs ++ charges rt ops db) (after rt ops db) := by
  induction ops generalizing db cs with
  | nil => simpa [charges] using hbudgets
  | cons op ops ih =>
    obtain ⟨es, hchanges, hemits⟩ := exec_changes rt op db
    have hstep : Budgets (cs ++ es.filterMap Event.charge?) (exec rt op db).1 := by
      let inv (es : List Event) (db : Db) : Prop :=
        (Known db ∧ Matched db) ∧ Budgets (cs ++ es.filterMap Event.charge?) db
      have hstart : inv [] db := ⟨hdb.sound, by simpa using hbudgets⟩
      refine (hchanges.traceInvariant inv (fun hdb hchange => ?_) hstart).2
      obtain ⟨⟨hknown, hmatched⟩, hbudgets⟩ := hdb
      refine ⟨⟨hknown.step hchange, hmatched.step hchange⟩, ?_⟩
      rw [List.filterMap_append, ← List.append_assoc]
      exact hbudgets.step hknown hmatched hchange
    rw [hemits.charges] at hstep
    rw [charges, ← List.append_assoc]
    exact ih (hdb.step op) hstep

/-- The counters of an engagement never fall. -/
theorem EngagementStep.counters_le {db db' : Db} {es : List Event} {e e' : Engagement}
    (h : EngagementStep db db' es e e') :
    e.targetsSpent ≤ e'.targetsSpent ∧ e.durationAllocated ≤ e'.durationAllocated := by
  cases h with
  | same => exact ⟨le_rfl, le_rfl⟩
  | amended amends => exact ⟨amends.targetsSpent_eq.ge, amends.durationAllocated_eq.ge⟩
  | halted now =>
    unfold Engagement.halted Engagement.advance Engagement.bump
    split <;> exact ⟨le_rfl, le_rfl⟩
  | charged admits =>
    rw [admits.charged]
    exact ⟨Nat.le_add_right .., Nat.le_add_right ..⟩

theorem counters_after (rt : Runtime) {db : Db} {e : Engagement} (hknown : Known db)
    (he : db.engagements.get? e.id = some e) (ops : List Op) :
    ∀ e', (after rt ops db).engagements.get? e.id = some e' →
      e.targetsSpent ≤ e'.targetsSpent ∧ e.durationAllocated ≤ e'.durationAllocated := by
  have hkept : e.id ∈ (after rt ops db).ids ∧
      ∀ e', (after rt ops db).engagements.get? e.id = some e' →
        e.targetsSpent ≤ e'.targetsSpent ∧ e.durationAllocated ≤ e'.durationAllocated := by
    refine after_invariant (fun db => e.id ∈ db.ids ∧
      ∀ e', db.engagements.get? e.id = some e' →
        e.targetsSpent ≤ e'.targetsSpent ∧ e.durationAllocated ≤ e'.durationAllocated)
      (fun {db₁ db₂ es} hdb hchange => ⟨hchange.ids_subset hdb.1, fun e₂ he₂ => ?_⟩)
      ⟨hknown.engagement he, fun e' he' => ?_⟩ ops
    · rcases hchange.engagement_row he₂ with ⟨hfresh, -⟩ | ⟨e₁, he₁, hstep⟩
      · exact absurd hdb.1 hfresh
      · obtain ⟨htargets, hseconds⟩ := hdb.2 e₁ he₁
        exact ⟨htargets.trans hstep.counters_le.1, hseconds.trans hstep.counters_le.2⟩
    · obtain rfl := Option.some.inj (he.symm.trans he')
      exact ⟨le_rfl, le_rfl⟩
  exact hkept.2

/-- An operation is a claim. -/
def Op.claims (op : Op) : Prop :=
  (∃ jobId body token, op.call = .job (.claim jobId body token)) ∨
    ∃ jobId body ids, op.call = .managed (.claim jobId body ids)

/-- A refused claim leaves at most another clock reading. -/
theorem refused_claim {op : Op} {db : Db} {e : Refusal} (hop : op.claims)
    (h : (exec rt op db).2 = .error e) :
    ∃ observed, (exec rt op db).1 = { db with observed } := by
  rcases hop with ⟨jobId, body, token, hcall⟩ | ⟨jobId, body, ids, hcall⟩
  · refine ⟨db.observed, ?_⟩
    simp only [exec, hcall, JobOp.run] at h ⊢
    cases hcommit : claimJob rt.toPlatform op.clocks op.request jobId body token db with
    | error => rfl
    | ok committed =>
      rw [hcommit] at h
      cases h
  · simp only [exec, hcall] at h ⊢
    rcases managedOp_cases rt op.request op.clocks (.claim jobId body ids) db with
      ⟨observed, e', hrun⟩ | ⟨-, observed, db', reply, -, hrun⟩
    · exact ⟨observed, congrArg Prod.fst hrun⟩
    · rw [hrun] at h
      cases h

/-- The budget ledgers, over all runs. The executions that hold capacity of an engagement never
exceed its limit; the counters of targets and of seconds are what the admitted claims charged,
within the limits; without a limit all three are zero. The counters never fall. A claim that is
refused, at whatever gate, charges nothing. -/
theorem budget_ledgers (rt : Runtime) (ops : List Op) :
    let db := after rt ops .empty
    (∀ e ∈ db.engagements.rows,
      db.reserved e.id ≤ e.concurrencyLimit.getD 0 ∧
      e.targetsSpent = chargedTo (charges rt ops .empty) e.id Charge.targets ∧
      e.targetsSpent ≤ e.targetLimit.getD 0 ∧
      e.durationAllocated = chargedTo (charges rt ops .empty) e.id Charge.seconds ∧
      e.durationAllocated ≤ e.durationLimit.getD 0) ∧
    (∀ e ∈ db.engagements.rows, ∀ later, ∀ e' ∈ (after rt later db).engagements.rows,
      e'.id = e.id →
        e.targetsSpent ≤ e'.targetsSpent ∧ e.durationAllocated ≤ e'.durationAllocated) ∧
    ∀ (op : Op) e, op.claims → (exec rt op db).2 = .error e →
      admitted rt op db = none ∧ ∃ observed, (exec rt op db).1 = { db with observed } := by
  intro db
  have hreach : Reachable rt db := ⟨ops, rfl⟩
  have hbudgets : Budgets (charges rt ops .empty) db := by
    simpa using budgets_after ops (Reachable.empty rt) .empty
  refine ⟨fun e he => ?_, fun e he later e' he' hid => ?_, fun op e hop hrefused => ⟨?_, ?_⟩⟩
  · have hbalanced := hbudgets.balanced _ e (Table.get?_of_mem he)
    exact ⟨hbalanced.capacity, hbalanced.targets, hbalanced.targets_le, hbalanced.seconds,
      hbalanced.seconds_le⟩
  · refine counters_after rt hreach.sound.1 (Table.get?_of_mem he) later e' ?_
    rw [← hid]
    exact Table.get?_of_mem he'
  · rcases hop with ⟨jobId, body, token, hcall⟩ | ⟨jobId, body, ids, hcall⟩ <;>
      simp only [admitted, hcall, hrefused, claimCharge]
  · exact refused_claim hop hrefused

end VardrMap
