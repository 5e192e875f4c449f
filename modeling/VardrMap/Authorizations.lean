import VardrMap.Operations

/-!
# Permission now

Two readings of the authorization records of an engagement: the route that shows the
authorization permitting work, and the check that governs a dispatch. The first looks for the
newest record that permits now, the second asks only the newest record. And two readings of a
testing window: the instants that were entered, and the clock faces that the store keeps.
-/
namespace VardrMap
open Lib Policy

/-! ## The authorization shown and the one enforced -/

/-- The present moment falls inside the window of the record. -/
def Authorization.covers (a : Authorization) (now : DateTime) : Bool :=
  !(a.windowStart.any fun start => now.instant < start.instant) &&
    !(a.windowEnd.any fun stop => stop.instant < now.instant)

/-- The record is active and covers the present moment. -/
def Authorization.permitsNow (a : Authorization) (now : DateTime) : Bool :=
  a.status == activeAuthorizationStatus && a.covers now

/-- The records of an engagement, the newest first. -/
def newestFirst (db : Db) (programId : String) : List Authorization :=
  (db.authorizations.rows.filter fun a => a.programId == programId).reverse

/-- `get_active_authorization`. -/
def getActiveAuthorization (db : Db) (programId : String) (user : User) (now : DateTime) :
    Except Refusal (Option Authorization) := do
  let _ ← getEngagement db programId user
  return ((newestFirst db programId).filter fun a =>
    a.status == activeAuthorizationStatus).find? fun a => a.covers now

theorem getActiveAuthorization_eq {db : Db} {programId : String} {user : User} {e : Engagement}
    (h : getEngagement db programId user = .ok e) (now : DateTime) :
    getActiveAuthorization db programId user now =
      .ok ((newestFirst db programId).find? fun a => a.permitsNow now) := by
  unfold getActiveAuthorization
  rw [h]
  refine congrArg Except.ok ?_
  rw [List.find?_filter]
  simp only [Authorization.permitsNow, Bool.decide_and, Bool.decide_eq_true]

/-- The check asks the newest record. -/
theorem governingAuthorization_eq (db : Db) (programId : String) :
    governingAuthorization db programId = (newestFirst db programId).head?.map fun a =>
      ⟨a.status, a.windowStart, a.windowEnd, []⟩ := by
  rw [governingAuthorization, newestFirst, List.head?_reverse]

/-- A record passes the gates exactly when it permits now; recorded permissions name no
capability. -/
theorem evaluateAuthorization_allowed (a : Authorization) (capability : String) (now : DateTime) :
    (evaluateAuthorization ⟨a.status, a.windowStart, a.windowEnd, []⟩ capability now).allowed =
      a.permitsNow now := by
  unfold evaluateAuthorization Authorization.permitsNow Authorization.covers
  cases hstatus : a.status == activeAuthorizationStatus with
  | false => simp [bne, hstatus, deny]
  | true =>
    cases hstart : a.windowStart.any fun start => decide (now.instant < start.instant) with
    | true => simp [bne, hstatus, deny]
    | false =>
      cases hstop : a.windowEnd.any fun stop => decide (stop.instant < now.instant) with
      | true => simp [bne, hstatus, deny]
      | false => simp [bne, hstatus]

section Shown

variable {db : Db} {engagement : Engagement} (hstatus : engagement.engagementStatus = some "active")
  (htype : selfAuthorizingTypes.contains (engagement.engagementType.getD "") = false)
  (hstop : engagement.stopWorkAt = none)
include hstatus htype hstop

/-- An engagement that needs a record passes when its newest record permits now. -/
theorem evaluateEngagement_allowed (capability : String) (now : DateTime) :
    (evaluateEngagement (policyInput db engagement capability now)).allowed =
      (newestFirst db engagement.id).head?.any fun a => a.permitsNow now := by
  have hgoverning := governingAuthorization_eq db engagement.id
  cases hnewest : (newestFirst db engagement.id).head? with
  | none =>
    rw [hnewest] at hgoverning
    simp only [evaluateEngagement, policyInput, hstop, hstatus, htype, hgoverning]
    rfl
  | some a =>
    rw [hnewest] at hgoverning
    simp only [evaluateEngagement, policyInput, hstop, hstatus, htype, hgoverning]
    exact evaluateAuthorization_allowed a capability now

/-- The route shows a record when the check passes, and only then, unless an older record
permits now and the newest does not. -/
theorem active_shown_iff_enforced_iff {programId : String} {user : User}
    (hget : getEngagement db programId user = .ok engagement) (capability : String)
    (now : DateTime) :
    ((∃ a, getActiveAuthorization db programId user now = .ok (some a)) ↔
        (evaluateEngagement (policyInput db engagement capability now)).allowed = true) ↔
      ((∃ a ∈ newestFirst db programId, a.permitsNow now = true) →
        ∃ newest ∈ (newestFirst db programId).head?, newest.permitsNow now = true) := by
  have hid : engagement.id = programId := Table.key_of_get? (getEngagement_eq_ok hget)
  have hshown : (∃ a, getActiveAuthorization db programId user now = .ok (some a)) ↔
      ∃ a ∈ newestFirst db programId, a.permitsNow now = true := by
    rw [getActiveAuthorization_eq hget]
    simp only [Except.ok.injEq]
    rw [← Option.isSome_iff_exists, List.find?_isSome]
  have henforced : (evaluateEngagement (policyInput db engagement capability now)).allowed = true ↔
      ∃ newest ∈ (newestFirst db programId).head?, newest.permitsNow now = true := by
    rw [evaluateEngagement_allowed hstatus htype hstop, hid]
    cases (newestFirst db programId).head? <;> simp
  have hnewest : (∃ newest ∈ (newestFirst db programId).head?, newest.permitsNow now = true) →
      ∃ a ∈ newestFirst db programId, a.permitsNow now = true := by
    rintro ⟨a, ha, hp⟩
    exact ⟨a, List.mem_of_mem_head? ha, hp⟩
  rw [hshown, henforced]
  exact ⟨fun h => h.mp, fun h => ⟨h, hnewest⟩⟩

end Shown

/-- An engagement with an open record and a newer one that was revoked. -/
def exampleShown : Db :=
  { Db.empty with
    engagements := ⟨[{
      id := "n1", ownerGithubId := "u1", orgId := none, engagementType := some "pentest"
      engagementStatus := some "active", startsAt := none, endsAt := none, stopWorkAt := none
      maxRequestRate := none, concurrencyLimit := none, targetLimit := none, targetsSpent := 0
      durationLimit := none, durationAllocated := 0, managedAuthorityRevision := 0 }], by decide⟩
    authorizations := ⟨[
      ⟨"a1", "n1", "", "", none, "", none, none, "active"⟩,
      ⟨"a2", "n1", "", "", none, "", none, none, "revoked"⟩], by decide⟩ }

/-- The older record is shown while the newer one refuses. -/
theorem not_active_shown_iff_enforced : ¬∀ (db : Db) (programId : String) (user : User)
    (engagement : Engagement), getEngagement db programId user = .ok engagement →
    engagement.engagementStatus = some "active" →
    selfAuthorizingTypes.contains (engagement.engagementType.getD "") = false →
    engagement.stopWorkAt = none → ∀ (capability : String) (now : DateTime),
      ((∃ a, getActiveAuthorization db programId user now = .ok (some a)) ↔
        (evaluateEngagement (policyInput db engagement capability now)).allowed = true) := by
  intro h
  have hget : ∃ e, getEngagement exampleShown "n1" ⟨"u1", "full", none⟩ = .ok e ∧
      e.engagementStatus = some "active" ∧
      selfAuthorizingTypes.contains (e.engagementType.getD "") = false ∧ e.stopWorkAt = none ∧
      (evaluateEngagement (policyInput exampleShown e "nuclei" exampleNoon)).allowed = false :=
    ⟨_, rfl, rfl, rfl, rfl, rfl⟩
  obtain ⟨e, hget, hstatus, htype, hstop, hrefused⟩ := hget
  have hshown : ∃ a, getActiveAuthorization exampleShown "n1" ⟨"u1", "full", none⟩ exampleNoon =
      .ok (some a) := ⟨_, rfl⟩
  have hallowed := (h _ _ _ e hget hstatus htype hstop "nuclei" exampleNoon).mp hshown
  rw [hrefused] at hallowed
  cases hallowed

/-- The same engagement before the newer record. -/
def exampleGoverned : Db :=
  { exampleShown with authorizations := exampleShown.authorizations.filter fun a => a.id == "a1" }

/-- With the newest record open, both agree. -/
theorem active_shown_iff_enforced_iff_example :
    ∃ e, getEngagement exampleGoverned "n1" ⟨"u1", "full", none⟩ = .ok e ∧
      ((∃ a, getActiveAuthorization exampleGoverned "n1" ⟨"u1", "full", none⟩ exampleNoon =
          .ok (some a)) ↔
        (evaluateEngagement (policyInput exampleGoverned e "nuclei" exampleNoon)).allowed =
          true) := by
  refine ⟨_, rfl, ?_⟩
  refine (active_shown_iff_enforced_iff ?_ ?_ ?_ ?_ "nuclei" exampleNoon).mpr fun _ => ?_
  · rfl
  · rfl
  · rfl
  · rfl
  · exact ⟨_, rfl, rfl⟩

/-! ## Testing windows -/

/-- `parse_iso_datetime`, over the interpreter's reader of ISO texts. -/
def parseIsoDatetime (fromIsoformat : Text → Option DateTime) (value : Option Text)
    (field : String) : Except Refusal (Option DateTime) :=
  match value.filter fun text => !text.isEmpty with
  | none => .ok none
  | some text =>
    match fromIsoformat (text.flatMap fun c => if c == 'Z' then "+00:00".toList else [c]) with
    | some d => .ok (some d)
    | none => .error (.http 422
      s!"{field} must be an ISO-8601 datetime, e.g. 2026-08-04T09:00:00Z")

/-- The clock face that the store keeps of a date: it drops the offset. -/
def wallClock (t : DateTime) : DateTime := ⟨t.wall, none, t.wall_lt⟩

theorem instant_wallClock (t : DateTime) : (wallClock t).instant = t.wall := by
  simp [wallClock, DateTime.instant]

theorem wallClock_of_offset {t : DateTime} (h : t.offset = none) : wallClock t = t := by
  cases t
  cases h
  rfl

/-- The two bounds of a window, each open when it is missing. -/
structure TestingWindow where
  start : Option DateTime
  stop : Option DateTime

namespace TestingWindow

/-- The instant lies in the window. -/
def Holds (w : TestingWindow) (t : ℤ) : Prop :=
  (∀ start ∈ w.start, start.instant ≤ t) ∧ ∀ stop ∈ w.stop, t ≤ stop.instant

/-- The window as the store gives it back. -/
def stored (w : TestingWindow) : TestingWindow := ⟨w.start.map wallClock, w.stop.map wallClock⟩

/-- Every bound was entered in UTC. -/
def Utc (w : TestingWindow) : Prop :=
  (∀ start ∈ w.start, start.offset.getD 0 = 0) ∧ ∀ stop ∈ w.stop, stop.offset.getD 0 = 0

/-- The window closes before it opens. -/
def Void (w : TestingWindow) : Prop :=
  ∃ start ∈ w.start, ∃ stop ∈ w.stop, stop.instant < start.instant

/-- The policy gate passes the window check of an active record. -/
def passes (w : TestingWindow) (permitted : List String) (capability : String) (now : DateTime) :
    Bool :=
  (evaluateAuthorization ⟨activeAuthorizationStatus, w.start, w.stop, permitted⟩ capability
    now).reason != .outsideTestingWindow

theorem passes_iff (w : TestingWindow) (permitted : List String) (capability : String)
    (now : DateTime) : w.passes permitted capability now = true ↔ w.Holds now.instant := by
  have hstart : (w.start.any fun start => decide (now.instant < start.instant)) = false ↔
      ∀ start ∈ w.start, start.instant ≤ now.instant := by
    cases w.start <;> simp
  have hstop : (w.stop.any fun stop => decide (stop.instant < now.instant)) = false ↔
      ∀ stop ∈ w.stop, now.instant ≤ stop.instant := by
    cases w.stop <;> simp
  unfold passes Holds evaluateAuthorization
  rw [← hstart, ← hstop]
  simp only [bne_self_eq_false, Bool.false_eq_true, if_false]
  cases w.start.any fun start => decide (now.instant < start.instant) with
  | true => simp [deny]
  | false =>
    cases w.stop.any fun stop => decide (stop.instant < now.instant) with
    | true => simp [deny]
    | false =>
      simp only [Bool.false_eq_true, if_false]
      split <;> simp [deny]

/-- Some date falls on every instant. -/
theorem exists_instant (t : ℤ) : ∃ now : DateTime, now.instant = t :=
  ⟨⟨0, some (-t), by decide⟩, by simp [DateTime.instant]⟩

theorem stored_holds (w : TestingWindow) (t : ℤ) : w.stored.Holds t ↔
    (∀ start ∈ w.start, (start.wall : ℤ) ≤ t) ∧ ∀ stop ∈ w.stop, t ≤ (stop.wall : ℤ) := by
  simp [stored, Holds, instant_wallClock]

theorem stored_void (w : TestingWindow) : w.stored.Void ↔
    ∃ start ∈ w.start, ∃ stop ∈ w.stop, (stop.wall : ℤ) < start.wall := by
  simp [stored, Void, instant_wallClock]

/-- The clock faces bound the same instants exactly when both bounds were entered in UTC, or
when neither reading leaves an instant. -/
theorem stored_holds_iff (w : TestingWindow) :
    (∀ t, w.stored.Holds t ↔ w.Holds t) ↔ w.Utc ∨ w.Void ∧ w.stored.Void := by
  simp only [stored_holds, stored_void]
  obtain ⟨start, stop⟩ := w
  simp only [Holds, Utc, Void, DateTime.instant, Option.mem_def]
  constructor
  · -- the windows agree at each of the bounds
    intro h
    cases start with
    | none =>
      cases stop with
      | none => simp
      | some e =>
        have hwall := h e.wall
        have hinstant := h (e.wall - e.offset.getD 0)
        simp only [reduceCtorEq, IsEmpty.forall_iff, implies_true, true_and, Option.some.injEq,
          forall_eq'] at hwall hinstant ⊢
        exact .inl (by omega)
    | some s =>
      cases stop with
      | none =>
        have hwall := h s.wall
        have hinstant := h (s.wall - s.offset.getD 0)
        simp only [reduceCtorEq, IsEmpty.forall_iff, implies_true, and_true, Option.some.injEq,
          forall_eq'] at hwall hinstant ⊢
        exact .inl (by omega)
      | some e =>
        have hs := h s.wall
        have hsi := h (s.wall - s.offset.getD 0)
        have he := h e.wall
        have hei := h (e.wall - e.offset.getD 0)
        simp only [Option.some.injEq, forall_eq', exists_eq_left'] at hs hsi he hei ⊢
        omega
  · rintro (⟨hs, he⟩ | ⟨⟨s, rfl, e, rfl, hv⟩, ⟨s', hs', e', he', hv'⟩⟩) t
    · refine and_congr ⟨fun h s hss => ?_, fun h s hss => ?_⟩ ⟨fun h e hee => ?_, fun h e hee => ?_⟩
      · have := h s hss
        have := hs s hss
        omega
      · have := h s hss
        have := hs s hss
        omega
      · have := h e hee
        have := he e hee
        omega
      · have := h e hee
        have := he e hee
        omega
    · obtain rfl := Option.some.inj hs'
      obtain rfl := Option.some.inj he'
      simp only [Option.some.injEq, forall_eq']
      omega

end TestingWindow

/-- The bounds of a record. -/
def Authorization.window (a : Authorization) : TestingWindow := ⟨a.windowStart, a.windowEnd⟩

/-- A request gives a bound, or leaves the one that was entered before. -/
inductive BoundEntered (fromIsoformat : Text → Option DateTime) (field : String)
    (old : Option DateTime) : Option (Option DateTime) → Option DateTime → Prop where
  | given {text : Option Text} {bound : Option DateTime} :
      parseIsoDatetime fromIsoformat text field = .ok bound →
      BoundEntered fromIsoformat field old (some bound) bound
  | kept {bound : Option DateTime} : old = bound.map wallClock →
      BoundEntered fromIsoformat field old none bound

/-- The bound that a request gives is the one it sets. -/
theorem BoundEntered.of_some {fromIsoformat : Text → Option DateTime} {field : String}
    {old value bound : Option DateTime}
    (h : BoundEntered fromIsoformat field old (some value) bound) : value = bound := by
  cases h
  rfl

variable [Unicode]

/-- The record has these bounds by a creation or an update of an authorization. -/
inductive WindowEntered (p : Platform) (fromIsoformat : Text → Option DateTime)
    (w : TestingWindow) : Authorization → Prop where
  | created {request : HttpRequest} {programId : String} {c : AuthorizationCreate} {db db' : Db}
      {reply : Reply} {row : Authorization} :
      createAuthorization p request programId c db = .ok (db', reply) →
      BoundEntered fromIsoformat "window_start" none (some c.windowStart) w.start →
      BoundEntered fromIsoformat "window_end" none (some c.windowEnd) w.stop →
      db'.authorizations.get? c.id = some row → WindowEntered p fromIsoformat w row
  | updated {request : HttpRequest} {programId id : String} {u : AuthorizationUpdate} {db db' : Db}
      {reply : Reply} {a row : Authorization} :
      updateAuthorization p request programId id u db = .ok (db', reply) →
      db.authorizations.get? id = some a → a.window.stored = a.window →
      BoundEntered fromIsoformat "window_start" a.windowStart u.windowStart w.start →
      BoundEntered fromIsoformat "window_end" a.windowEnd u.windowEnd w.stop →
      db'.authorizations.get? id = some row → WindowEntered p fromIsoformat w row

omit [Unicode] in
/-- A date column that is set holds the clock face of the value. -/
theorem assignDate_eq {p : Platform} (hp : ∀ d, p.storedDate d = wallClock d)
    {old : Option DateTime} (hold : old.map wallClock = old) {fromIsoformat : Text → Option DateTime}
    {field : String} {value : Option (Option DateTime)} {bound : Option DateTime}
    (h : BoundEntered fromIsoformat field old value bound) :
    assignDate p old value = bound.map wallClock := by
  have hp : p.storedDate = wallClock := funext hp
  cases h with
  | kept h => simp [assignDate, differs, h]
  | given _ =>
    unfold assignDate
    split
    · simp [hp]
    · -- an equal value is a clock face, as the stored one is
      rename_i hsame
      have hsame : sameDate old bound = true := by simpa [differs] using hsame
      cases old with
      | none => cases bound <;> simp_all [sameDate]
      | some o =>
        cases bound with
        | none => simp [sameDate] at hsame
        | some b =>
          have ho : o.offset = none := by
            have := congrArg DateTime.offset (Option.some.inj hold)
            exact this.symm
          simp only [sameDate, DateTime.pyEq, DateTime.aware, DateTime.instant, ho,
            Bool.and_eq_true, beq_iff_eq, Option.isSome_none] at hsame
          have hb : b.offset = none := by simpa using hsame.1.symm
          have hw : b.wall = o.wall := by
            have := hsame.2
            simp only [hb, Option.getD_none] at this
            omega
          rw [Option.map_some, wallClock_of_offset hb]
          obtain ⟨wall, offset, hwall⟩ := o
          obtain ⟨wall', offset', hwall'⟩ := b
          obtain rfl : offset = none := ho
          obtain rfl : offset' = none := hb
          obtain rfl : wall' = wall := hw
          rfl

/-- What is entered is kept as clock faces. -/
theorem WindowEntered.window_eq {p : Platform} (hp : ∀ d, p.storedDate d = wallClock d)
    {fromIsoformat : Text → Option DateTime} {w : TestingWindow} {row : Authorization}
    (h : WindowEntered p fromIsoformat w row) : row.window = w.stored := by
  cases h with
  | @created request programId c db db' reply row hc hstart hstop hrow =>
    obtain ⟨_, -, hc⟩ := bind_eq_ok hc
    obtain ⟨_, -, hc⟩ := bind_eq_ok hc
    obtain ⟨db₁, hadd, hc⟩ := bind_eq_ok hc
    obtain ⟨rfl, -⟩ := Prod.mk.inj (Except.ok.inj hc)
    obtain ⟨authorizations, -, hinsert, rfl⟩ := addAuthorization_eq_ok hadd
    have hp : p.storedDate = wallClock := funext hp
    have hrow := (Table.get?_insert hinsert c.id).symm.trans hrow
    rw [if_pos (show Keyed.key (c.row p programId) = c.id from rfl)] at hrow
    obtain rfl := Option.some.inj hrow
    simp [Authorization.window, AuthorizationCreate.row, TestingWindow.stored, hp, hstart.of_some,
      hstop.of_some]
  | @updated request programId id u db db' reply a row hu ha hstored hstart hstop hrow =>
    obtain ⟨_, -, hu⟩ := bind_eq_ok hu
    obtain ⟨_, -, hu⟩ := bind_eq_ok hu
    obtain ⟨b, hb, hu⟩ := bind_eq_ok hu
    obtain ⟨rfl, -⟩ := Prod.mk.inj (Except.ok.inj hu)
    have hb := found_eq_ok hb
    rw [ha] at hb
    obtain rfl : a = b := (Option.filter_eq_some_iff.mp hb).1 |> Option.some.inj
    have hid : a.id = id := Table.key_of_get? ha
    simp only at hrow
    rw [Table.get?_put_at (r := a.update p u) ha (by exact hid)] at hrow
    obtain rfl := Option.some.inj hrow
    have hkeptStart : a.windowStart.map wallClock = a.windowStart :=
      congrArg TestingWindow.start hstored
    have hkeptStop : a.windowEnd.map wallClock = a.windowEnd := congrArg TestingWindow.stop hstored
    simp only [Authorization.window, Authorization.update, TestingWindow.stored]
    rw [assignDate_eq hp hkeptStart hstart, assignDate_eq hp hkeptStop hstop]

/-- A window check passes exactly at the instants that were entered, before the record is stored
and after it is read back, if and only if the bounds were entered in UTC or neither reading of
them leaves an instant. -/
theorem window_denotes_instants_iff {p : Platform} (hp : ∀ d, p.storedDate d = wallClock d)
    {fromIsoformat : Text → Option DateTime} {w : TestingWindow} {row : Authorization}
    (h : WindowEntered p fromIsoformat w row) :
    (∀ (permitted : List String) (capability : String) (now : DateTime),
      (w.passes permitted capability now = true ↔ w.Holds now.instant) ∧
        (row.window.passes permitted capability now = true ↔ w.Holds now.instant)) ↔
      w.Utc ∨ w.Void ∧ w.stored.Void := by
  rw [h.window_eq hp, ← w.stored_holds_iff]
  constructor
  · intro hall t
    obtain ⟨now, rfl⟩ := TestingWindow.exists_instant t
    rw [← w.stored.passes_iff [] "" now]
    exact (hall [] "" now).2
  · intro hall permitted capability now
    rw [w.passes_iff, w.stored.passes_iff]
    exact ⟨Iff.rfl, hall now.instant⟩

/-! ## A window that opens two hours late -/

/-- A platform whose store keeps clock faces. -/
def clockFacePlatform : Platform := { examplePlatform with storedDate := wallClock }

/-- A bound two hours ahead of UTC. -/
def exampleBound : DateTime := { exampleNoon with offset := some 7200000000 }

/-- An authorization from this bound on. -/
def exampleCreate (start : DateTime) : AuthorizationCreate :=
  ⟨"a3", "", "", "", none, some start, none⟩

/-- The record that is stored for it. -/
def exampleStored? (start : DateTime) : Option Authorization :=
  (createAuthorization clockFacePlatform ⟨none, some "owner"⟩ "n1" (exampleCreate start)
    exampleShown).toOption.bind fun r => r.1.authorizations.get? "a3"

theorem exists_windowEntered {start : DateTime} (h : (exampleStored? start).isSome = true) :
    ∃ row, WindowEntered clockFacePlatform (fun _ => some start) ⟨some start, none⟩ row := by
  obtain ⟨row, hrow⟩ := Option.isSome_iff_exists.mp h
  unfold exampleStored? at hrow
  cases hcreated : createAuthorization clockFacePlatform ⟨none, some "owner"⟩ "n1"
      (exampleCreate start) exampleShown with
  | error e => simp [hcreated, Except.toOption] at hrow
  | ok r =>
    have hstart : BoundEntered (fun _ => some start) "window_start" none (some (some start))
        (some start) := .given (show parseIsoDatetime _ (some ['t']) _ = _ from rfl)
    have hstop : BoundEntered (fun _ => some start) "window_end" none (some none) none :=
      .given (show parseIsoDatetime _ none _ = _ from rfl)
    rw [hcreated] at hrow
    exact ⟨row, .created hcreated hstart hstop hrow⟩

omit [Unicode] in
/-- At the instant of the bound itself the stored window has not opened yet. -/
theorem not_window_denotes_instants : ¬∀ (p : Platform) (fromIsoformat : Text → Option DateTime)
    (w : TestingWindow) (row : Authorization), (∀ d, p.storedDate d = wallClock d) →
    @WindowEntered Unicode.ascii p fromIsoformat w row →
      ∀ (permitted : List String) (capability : String) (now : DateTime),
        row.window.passes permitted capability now = true ↔ w.Holds now.instant := by
  intro h
  let _ := Unicode.ascii
  have hstored : (exampleStored? exampleBound).isSome = true := by decide +kernel
  obtain ⟨row, hrow⟩ := exists_windowEntered hstored
  have hat := h _ _ _ row (fun _ => rfl) hrow [] "nuclei" exampleBound
  rw [@WindowEntered.window_eq Unicode.ascii _ (fun _ => rfl) _ _ _ hrow,
    TestingWindow.passes_iff] at hat
  have hholds : TestingWindow.Holds ⟨some exampleBound, none⟩ exampleBound.instant := by
    simp [TestingWindow.Holds]
  have hopens := (hat.mpr hholds).1 (wallClock exampleBound) rfl
  exact absurd hopens (by decide)

omit [Unicode] in
/-- A bound entered in UTC stays where it is. -/
theorem window_denotes_instants_iff_example : ∃ row : Authorization,
    @WindowEntered Unicode.ascii clockFacePlatform (fun _ => some exampleNoon)
        ⟨some exampleNoon, none⟩ row ∧
      (row.window.passes [] "nuclei" exampleNoon = true ↔
        TestingWindow.Holds ⟨some exampleNoon, none⟩ exampleNoon.instant) := by
  let _ := Unicode.ascii
  have hstored : (exampleStored? exampleNoon).isSome = true := by decide +kernel
  obtain ⟨row, hrow⟩ := exists_windowEntered hstored
  refine ⟨row, hrow, ?_⟩
  have hutc : TestingWindow.Utc ⟨some exampleNoon, none⟩ := by
    simp [TestingWindow.Utc, exampleNoon]
  exact ((@window_denotes_instants_iff Unicode.ascii clockFacePlatform (fun _ => rfl) _ _ _ hrow).mpr
    (.inl hutc) [] "nuclei" exampleNoon).2

end VardrMap
