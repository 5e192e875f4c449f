import VardrMap.LocalAuth.Calls
import Mathlib.Data.List.Chain
import Mathlib.Tactic.Linarith

/-!
# How long sessions last

The time of the last use is written at most once a minute, so that a session is judged by a time
that may be a minute old. It still ends within the idle time after its last use, does not end
earlier as long as its uses are less than the idle time and that minute apart, and no session
of a user survives a new password but the one that is issued with it.
-/
namespace VardrMap.LocalAuth
open Lib

/-- The session was issued or accepted at `u`. -/
def UsedAt (es : List LocalEvent) (k : String) (u : Instant) : Prop :=
  (∃ s, .issued s ∈ es ∧ s.tokenHash = k ∧ s.createdAt = u) ∨
    ∃ s, .accepted s u ∈ es ∧ s.tokenHash = k

/-- The session was issued, as it is apart from the time of its last use. -/
def IssuedAs (es : List LocalEvent) (s : LocalSession) : Prop :=
  ∃ s₀, .issued s₀ ∈ es ∧ s₀.tokenHash = s.tokenHash ∧ s₀.userId = s.userId ∧
    s.expiresAt = s₀.createdAt + sessionLifetime

theorem UsedAt.mono {es fs : List LocalEvent} {k : String} {u : Instant} (h : UsedAt es k u) :
    UsedAt (es ++ fs) k u := by
  rcases h with ⟨s, hs, h⟩ | ⟨s, hs, h⟩
  · exact .inl ⟨s, List.mem_append_left _ hs, h⟩
  · exact .inr ⟨s, List.mem_append_left _ hs, h⟩

theorem IssuedAs.mono {es fs : List LocalEvent} {s : LocalSession} (h : IssuedAs es s) :
    IssuedAs (es ++ fs) s := by
  obtain ⟨s₀, hs, h⟩ := h
  exact ⟨s₀, List.mem_append_left _ hs, h⟩

variable [Unicode] {env : LocalEnv} {hasher : Hasher}

/-! ## Where sessions come from -/

theorem LocalChange.clock_le {w w' : LocalWorld} {es : List LocalEvent}
    (h : LocalChange env w es w') : w.clock ≤ w'.clock := by
  cases h with
  | wait hle => exact hle
  | refused | accepted | failed | passed | closed | changed | issued => exact le_rfl

/-- A stored session was stored before, but for the time of its last use, or is just issued. -/
theorem LocalChange.session_before {w w' : LocalWorld} {es : List LocalEvent}
    (h : LocalChange env w es w') {r' : LocalSession} (hr' : r' ∈ w'.db.sessions.rows) :
    (∃ r ∈ w.db.sessions.rows, r' = { r with lastSeenAt := r'.lastSeenAt } ∧
      (r'.lastSeenAt = r.lastSeenAt ∨ .accepted r w'.clock ∈ es ∧ r'.lastSeenAt = w'.clock)) ∨
    .issued r' ∈ es ∧ ∃ raw userId, r' = newSession raw userId w'.clock := by
  cases h with
  | wait | refused | failed | passed => exact .inl ⟨r', hr', rfl, .inl rfl⟩
  | closed | changed => exact .inl ⟨r', (List.mem_filter.mp hr').1, rfl, .inl rfl⟩
  | @accepted db t request session account _ hadmitted =>
    rw [LocalDb.seen] at hr'
    split at hr'
    · obtain ⟨x, hx, rfl⟩ := List.mem_map.mp hr'
      split
      · rename_i hkey
        obtain ⟨-, -, hsession, -⟩ := admitted_eq_ok hadmitted
        have hx' : x = session := Table.eq_of_key hx (Table.mem_of_get? hsession) hkey
        exact .inl ⟨x, hx, by rw [hx'], .inr ⟨by simp [hx'], rfl⟩⟩
      · exact .inl ⟨x, hx, rfl, .inl rfl⟩
    · exact .inl ⟨r', hr', rfl, .inl rfl⟩
  | @issued db t raw userId sessions hinsert =>
    rw [Table.rows_of_insert hinsert, List.mem_append, List.mem_singleton] at hr'
    rcases hr' with hr' | rfl
    · exact .inl ⟨r', (List.mem_filter.mp hr').1, rfl, .inl rfl⟩
    · exact .inr ⟨List.mem_singleton_self _, raw, userId, rfl⟩

/-- What the events say of every stored session. -/
structure Told (es : List LocalEvent) (w : LocalWorld) (r : LocalSession) : Prop where
  issued : IssuedAs es r
  used : UsedAt es r.tokenHash r.lastSeenAt
  seen_le : r.lastSeenAt ≤ w.clock

theorem told_step {w w' : LocalWorld} {es fs : List LocalEvent}
    (h : ∀ r ∈ w.db.sessions.rows, Told es w r) (hstep : LocalChange env w fs w') :
    ∀ r ∈ w'.db.sessions.rows, Told (es ++ fs) w' r := by
  intro r' hr'
  rcases hstep.session_before hr' with
    ⟨r, hr, heq, hseen⟩ | ⟨hissued, raw, userId, rfl⟩
  · obtain ⟨hissued, hused, hle⟩ := h r hr
    have hissued' : IssuedAs (es ++ fs) r' := by
      rw [heq]
      exact hissued.mono
    have hkey : r'.tokenHash = r.tokenHash := by rw [heq]
    rcases hseen with hsame | ⟨haccepted, hnow⟩
    · refine ⟨hissued', ?_, ?_⟩
      · rw [hkey, hsame]
        exact hused.mono
      · rw [hsame]
        exact hle.trans hstep.clock_le
    · refine ⟨hissued', ?_, hnow.le⟩
      rw [hkey, hnow]
      exact .inr ⟨r, List.mem_append_right _ haccepted, rfl⟩
  · exact ⟨⟨_, List.mem_append_right _ hissued, rfl, rfl, rfl⟩,
      .inl ⟨_, List.mem_append_right _ hissued, rfl, rfl⟩, le_rfl⟩

/-- Sessions that the run has stored are told of by its events. -/
theorem told_of_changes {w w' : LocalWorld} {es : List LocalEvent}
    (hempty : w.db.sessions.rows = []) (h : LocalChanges env w es w') :
    ∀ r ∈ w'.db.sessions.rows, Told es w' r := by
  have hnone : ∀ r ∈ w.db.sessions.rows, Told [] w r := by
    rw [hempty]
    exact fun r hr => absurd hr List.not_mem_nil
  exact h.traceInvariant (fun es w => ∀ r ∈ w.db.sessions.rows, Told es w r)
    (fun hw hstep => told_step hw hstep) hnone

/-! ## What is accepted -/

/-- What a change accepts, it has admitted. -/
theorem LocalChange.admitted {w w' : LocalWorld} {es : List LocalEvent}
    (h : LocalChange env w es w') {s : LocalSession} {t : Instant} (hs : .accepted s t ∈ es) :
    t = w.clock ∧ ∃ request account,
      LocalAuth.admitted env w.db request w.clock = .ok (s, account) := by
  cases h with
  | accepted _ hadmitted =>
    obtain ⟨rfl, rfl⟩ : s = _ ∧ t = _ := by simpa using hs
    exact ⟨rfl, _, _, hadmitted⟩
  | wait | refused | failed | passed | closed | changed | issued => simp at hs

/-- A session is accepted within the idle time after a use of it, and before its end. -/
theorem accepted_recently {w w' : LocalWorld} {es fs : List LocalEvent} {s : LocalSession}
    {t : Instant} (hempty : w.db.sessions.rows = [])
    (h : LocalChanges env w (es ++ .accepted s t :: fs) w') :
    (∃ u, UsedAt es s.tokenHash u ∧ u ≤ t ∧ t < u + idleLifetime) ∧
      ∃ s₀, .issued s₀ ∈ es ∧ s₀.tokenHash = s.tokenHash ∧ s₀.userId = s.userId ∧
        t < s₀.createdAt + sessionLifetime := by
  obtain ⟨u, v, es₁, es₂, fs₁, fs₂, rfl, rfl, hbefore, hstep, -⟩ := h.split
  obtain ⟨rfl, request, account, hadmitted⟩ :=
    hstep.admitted (List.mem_append_right _ (List.mem_cons_self ..))
  obtain ⟨-, -, hsession, ⟨hend, hidle⟩, -, -⟩ := admitted_eq_ok hadmitted
  obtain ⟨hissued, hused, hle⟩ :=
    told_of_changes hempty hbefore s (Table.mem_of_get? hsession)
  obtain ⟨s₀, hs₀, hkey, huser, hexpires⟩ := hissued.mono
  rw [hexpires] at hend
  exact ⟨⟨_, hused.mono, hle, hidle⟩, ⟨s₀, hs₀, hkey, huser, hend⟩⟩

/-! ## A new password -/

/-- The stored sessions of a user were issued by these events. -/
def OnlyIssued (userId : String) (es : List LocalEvent) (w : LocalWorld) : Prop :=
  ∀ r ∈ w.db.sessions.rows, r.userId = userId →
    ∃ s, .issued s ∈ es ∧ s.tokenHash = r.tokenHash ∧ s.userId = userId

theorem onlyIssued_step {userId : String} {w w' : LocalWorld} {es fs : List LocalEvent}
    (h : OnlyIssued userId es w) (hstep : LocalChange env w fs w') :
    OnlyIssued userId (es ++ fs) w' := by
  intro r' hr' huser
  rcases hstep.session_before hr' with ⟨r, hr, heq, -⟩ | ⟨hissued, -⟩
  · have hkey : r'.tokenHash = r.tokenHash := by rw [heq]
    have huser' : r'.userId = r.userId := by rw [heq]
    obtain ⟨s, hs, hsr⟩ := h r hr (huser'.symm.trans huser)
    rw [hkey]
    exact ⟨s, List.mem_append_left _ hs, hsr⟩
  · exact ⟨r', List.mem_append_right _ hissued, rfl, huser⟩

/-- A new password leaves no session of its user. -/
theorem LocalChange.onlyIssued {userId : String} {w w' : LocalWorld} {es fs : List LocalEvent}
    (h : LocalChange env w (es ++ .changed userId :: fs) w') :
    fs = [] ∧ OnlyIssued userId [] w' := by
  generalize hall : es ++ .changed userId :: fs = all at h
  have hmem : .changed userId ∈ all := hall ▸ List.mem_append_right _ (List.mem_cons_self ..)
  cases h with
  | changed userId' =>
    obtain rfl : userId = userId' := by simpa using hmem
    refine ⟨?_, fun r hr huser => ?_⟩
    · have hlength := congrArg List.length hall
      rw [List.length_append, List.length_cons, List.length_singleton] at hlength
      exact List.length_eq_zero_iff.mp (by omega)
    · simpa [huser] using (List.mem_filter.mp hr).2
  | wait | refused | accepted | failed | passed | closed | issued => simp at hmem

/-- After a new password the sessions of the user that are accepted were issued since. -/
theorem issued_of_accepted {w w' : LocalWorld} {es fs gs : List LocalEvent} {userId : String}
    {s : LocalSession} {t : Instant} (huser : s.userId = userId)
    (h : LocalChanges env w (es ++ .changed userId :: (fs ++ .accepted s t :: gs)) w') :
    ∃ s₀, .issued s₀ ∈ fs ∧ s₀.tokenHash = s.tokenHash ∧ s₀.userId = userId := by
  obtain ⟨u, v, es₁, es₂, fs₁, fs₂, rfl, hfs, -, hstep, hafter⟩ := h.split
  obtain ⟨rfl, honly⟩ := hstep.onlyIssued
  obtain rfl : fs ++ .accepted s t :: gs = fs₂ := hfs
  obtain ⟨x, y, es₃, es₄, fs₃, fs₄, rfl, -, hbefore, hstep', -⟩ := hafter.split
  have hissued : OnlyIssued userId ([] ++ es₃) x :=
    hbefore.traceInvariant (OnlyIssued userId) (fun hw hstep => onlyIssued_step hw hstep) honly
  obtain ⟨-, request, account, hadmitted⟩ :=
    hstep'.admitted (List.mem_append_right _ (List.mem_cons_self ..))
  obtain ⟨-, -, hsession, -⟩ := admitted_eq_ok hadmitted
  obtain ⟨s₀, hs₀, h₀⟩ := hissued s (Table.mem_of_get? hsession) huser
  exact ⟨s₀, List.mem_append_left _ hs₀, h₀⟩

/-! ## Uses that are close enough -/

/-- How far apart two uses may be, whenever the first of them was written. -/
def revisitInterval : Instant := 29 * 60 * 1000000

/-- When requests in order presented the session. -/
def presentedTimes (k : String) (es : List LocalEvent) : List Instant :=
  es.filterMap fun
    | .presented k' t => if k' = k then some t else none
    | _ => none

/-- When the session was accepted. -/
def acceptedTimes (k : String) (es : List LocalEvent) : List Instant :=
  es.filterMap fun
    | .accepted s t => if s.tokenHash = k then some t else none
    | _ => none

/-- The session is not closed, and presented often enough, up to its end. -/
structure Steady (s : LocalSession) (es : List LocalEvent) : Prop where
  kept : ∀ e ∈ es, e ≠ .closed s.tokenHash ∧ e ≠ .changed s.userId
  spaced : (s.createdAt :: presentedTimes s.tokenHash es).IsChain fun u t => t < u + revisitInterval
  before_end : ∀ t ∈ presentedTimes s.tokenHash es, t < s.expiresAt

/-- The session was accepted whenever it was presented, and is stored until its end with a time
that is less than a minute older than its last use. -/
structure Alive (s : LocalSession) (es : List LocalEvent) (w : LocalWorld) : Prop where
  accepted_eq : acceptedTimes s.tokenHash es = presentedTimes s.tokenHash es
  stored : w.clock < s.expiresAt → ∃ r, w.db.sessions.get? s.tokenHash = some r ∧
    r.userId = s.userId ∧ r.expiresAt = s.expiresAt ∧
    ∀ u ∈ (s.createdAt :: presentedTimes s.tokenHash es).getLast?, u < r.lastSeenAt + seenInterval
  account : ∃ a, w.db.accounts.get? s.userId = some a
  credential : ∃ c, w.db.credentials.get? s.userId = some c

omit [Unicode] in
theorem presentedTimes_append (k : String) (es fs : List LocalEvent) :
    presentedTimes k (es ++ fs) = presentedTimes k es ++ presentedTimes k fs :=
  List.filterMap_append

omit [Unicode] in
theorem acceptedTimes_append (k : String) (es fs : List LocalEvent) :
    acceptedTimes k (es ++ fs) = acceptedTimes k es ++ acceptedTimes k fs :=
  List.filterMap_append

omit [Unicode] in
theorem Steady.left {s : LocalSession} {es fs : List LocalEvent} (h : Steady s (es ++ fs)) :
    Steady s es := by
  obtain ⟨hkept, hspaced, hend⟩ := h
  rw [presentedTimes_append] at hspaced hend
  rw [← List.cons_append] at hspaced
  exact ⟨fun e he => hkept e (List.mem_append_left _ he), hspaced.left_of_append,
    fun t ht => hend t (List.mem_append_left _ ht)⟩

omit [Unicode] in
/-- A change that neither presents the session nor removes it. -/
theorem Alive.quiet {s : LocalSession} {es fs : List LocalEvent} {w w' : LocalWorld}
    (h : Alive s es w) (hpresented : presentedTimes s.tokenHash fs = [])
    (haccepted : acceptedTimes s.tokenHash fs = []) (hclock : w.clock ≤ w'.clock)
    (hstored : w'.clock < s.expiresAt → ∀ r, w.db.sessions.get? s.tokenHash = some r →
      r.userId = s.userId → r.expiresAt = s.expiresAt →
        w'.db.sessions.get? s.tokenHash = some r)
    (haccounts : w'.db.accounts = w.db.accounts)
    (hcredentials : ∀ c, w.db.credentials.get? s.userId = some c →
      ∃ c', w'.db.credentials.get? s.userId = some c') : Alive s (es ++ fs) w' := by
  obtain ⟨c, hc⟩ := h.credential
  refine ⟨?_, fun hend => ?_, haccounts ▸ h.account, hcredentials c hc⟩
  · rw [acceptedTimes_append, presentedTimes_append, hpresented, haccepted, h.accepted_eq]
  · obtain ⟨r, hr, huser, hexpires, hlast⟩ := h.stored (hclock.trans_lt hend)
    refine ⟨r, hstored hend r hr huser hexpires, huser, hexpires, ?_⟩
    rwa [presentedTimes_append, hpresented, List.append_nil]

omit [Unicode] in
/-- The last use is close to a presentation. -/
theorem Steady.lt_last {s : LocalSession} {es fs : List LocalEvent} {t : Instant}
    (h : Steady s (es ++ fs)) (ht : presentedTimes s.tokenHash fs = [t]) :
    t < s.expiresAt ∧ ∃ u ∈ (s.createdAt :: presentedTimes s.tokenHash es).getLast?,
      t < u + revisitInterval := by
  obtain ⟨-, hspaced, hend⟩ := h
  rw [presentedTimes_append, ht] at hspaced hend
  rw [← List.cons_append] at hspaced
  refine ⟨hend t (List.mem_append_right _ (List.mem_singleton_self t)), ?_⟩
  have hlast := List.getLast?_eq_some_getLast
    (List.cons_ne_nil s.createdAt (presentedTimes s.tokenHash es))
  exact ⟨_, hlast, (List.isChain_append.mp hspaced).2.2 _ hlast t rfl⟩

/-- A presentation that is close enough is admitted. -/
theorem Alive.admitted {s : LocalSession} {es fs : List LocalEvent} {db : LocalDb} {t : Instant}
    {request : LocalRequest} (h : Alive s es ⟨db, t⟩) (hsteady : Steady s (es ++ fs))
    (hfs : presentedTimes s.tokenHash fs = [t]) (horder : request.InOrder env)
    (hkey : digest request.cookie = s.tokenHash) :
    ∃ r a, LocalAuth.admitted env db request t = .ok (r, a) := by
  obtain ⟨hend, u, hu, hclose⟩ := hsteady.lt_last hfs
  obtain ⟨r, hr, huser, hexpires, hlast⟩ := h.stored hend
  obtain ⟨a, ha⟩ := h.account
  obtain ⟨c, hc⟩ := h.credential
  have hidle : t < r.lastSeenAt + idleLifetime := by
    have hlt := hlast u hu
    have hsum : revisitInterval + seenInterval = idleLifetime := rfl
    linarith
  rw [← huser] at ha hc
  exact ⟨r, a, admitted_of_inOrder horder (hkey ▸ hr) (hexpires ▸ hend) hidle ha hc⟩

omit [Unicode] in
/-- The last use of a session is written when the one that is stored is a minute old. -/
theorem seen_get? {db : LocalDb} {session : LocalSession} {k : String} (t : Instant)
    (h : db.sessions.get? k = some session) :
    ∃ r, (db.seen session t).sessions.get? k = some r ∧ r.userId = session.userId ∧
      r.expiresAt = session.expiresAt ∧ t < r.lastSeenAt + seenInterval := by
  have hpos : t < t + seenInterval := Int.lt_add_of_pos_right t (by decide)
  rw [LocalDb.seen]
  split
  · have hkey : session.tokenHash = k := Table.key_of_get? h
    exact ⟨{ session with lastSeenAt := t }, Table.get?_put_at h hkey, rfl, rfl, hpos⟩
  · rename_i hfresh
    exact ⟨session, h, rfl, rfl, Int.lt_add_of_sub_right_lt (not_le.mp hfresh)⟩

omit [Unicode] in
theorem seen_get?_ne {db : LocalDb} {session : LocalSession} {k : String} (t : Instant)
    (h : session.tokenHash ≠ k) : (db.seen session t).sessions.get? k = db.sessions.get? k := by
  rw [LocalDb.seen]
  split
  · exact Table.get?_put_ne h
  · rfl

omit [Unicode] in
theorem seen_others (db : LocalDb) (session : LocalSession) (t : Instant) :
    (db.seen session t).accounts = db.accounts ∧
      (db.seen session t).credentials = db.credentials := by
  rw [LocalDb.seen]
  split <;> exact ⟨rfl, rfl⟩

omit [Unicode] in
/-- No credential goes away. -/
theorem exists_putCredential {db : LocalDb} {c c' old : LocalCredential} {userId : String}
    (hold : db.credentials.get? c'.userId = some old)
    (hc : db.credentials.get? userId = some c) :
    ∃ c'', (db.putCredential c').credentials.get? userId = some c'' := by
  rcases Table.get?_put_of_get? (r := c') hold hc with ⟨-, h⟩ | h
  · exact ⟨_, h⟩
  · exact ⟨_, h⟩

theorem alive_step {s : LocalSession} {es fs : List LocalEvent} {w w' : LocalWorld}
    (h : Alive s es w) (hstep : LocalChange env w fs w') (hsteady : Steady s (es ++ fs)) :
    Alive s (es ++ fs) w' := by
  have hkept : ∀ e ∈ fs, e ≠ .closed s.tokenHash ∧ e ≠ .changed s.userId := fun e he =>
    hsteady.kept e (List.mem_append_right _ he)
  cases hstep with
  | wait hle =>
    exact h.quiet rfl rfl hle (fun _ r hr _ _ => hr) rfl fun c hc => ⟨c, hc⟩
  | @refused db t request horder hrefused =>
    by_cases hkey : digest request.cookie = s.tokenHash
    · have hpresented : presentedTimes s.tokenHash [.presented (digest request.cookie) t] = [t] := by
        simp [presentedTimes, hkey]
      obtain ⟨r, a, hadmitted⟩ := h.admitted hsteady hpresented horder hkey
      exact (hrefused _ hadmitted).elim
    · exact h.quiet (by simp [presentedTimes, hkey]) rfl le_rfl (fun _ r hr _ _ => hr) rfl
        fun c hc => ⟨c, hc⟩
  | @accepted db t request session account horder hadmitted =>
    obtain ⟨-, -, hsession, -⟩ := admitted_eq_ok hadmitted
    have hsessionKey : session.tokenHash = digest request.cookie := Table.key_of_get? hsession
    obtain ⟨haccounts, hcredentials⟩ := seen_others db session t
    by_cases hkey : digest request.cookie = s.tokenHash
    · let fs : List LocalEvent := [.presented (digest request.cookie) t, .accepted session t]
      have hpresented : presentedTimes s.tokenHash fs = [t] := by
        simp [fs, presentedTimes, hkey]
      have haccepted : acceptedTimes s.tokenHash fs = [t] := by
        simp [fs, acceptedTimes, hsessionKey, hkey]
      have hend := (hsteady.lt_last hpresented).1
      obtain ⟨r, hr, huser, hexpires, -⟩ := h.stored hend
      rw [hkey] at hsession
      obtain rfl : session = r := Option.some.inj (hsession.symm.trans hr)
      obtain ⟨r', hr', huser', hexpires', hseen⟩ := seen_get? t hsession
      refine ⟨?_, fun _ => ⟨r', hr', huser'.trans huser, hexpires'.trans hexpires, ?_⟩, ?_, ?_⟩
      · rw [acceptedTimes_append, presentedTimes_append, h.accepted_eq]
        exact congrArg _ (haccepted.trans hpresented.symm)
      · intro u hu
        rw [presentedTimes_append, hpresented, ← List.cons_append, List.getLast?_concat] at hu
        cases hu
        exact hseen
      · rw [haccounts]
        exact h.account
      · rw [hcredentials]
        exact h.credential
    · have hne : session.tokenHash ≠ s.tokenHash := fun heq => hkey (hsessionKey.symm.trans heq)
      refine h.quiet (by simp [presentedTimes, hkey]) (by simp [acceptedTimes, hne]) le_rfl
        (fun _ r hr _ _ => (seen_get?_ne t hne).trans hr) haccounts fun c hc => ⟨c, ?_⟩
      rw [hcredentials]
      exact hc
  | @failed db t c hc hopen =>
    have hold : db.credentials.get? (c.fail t).userId = some c := hc
    exact h.quiet rfl rfl le_rfl (fun _ r hr _ _ => hr) rfl fun c' hc' =>
      exists_putCredential hold hc'
  | @passed db t c c' hc hopen hc' =>
    have hid : c'.userId = c.userId := by rw [hc']
    exact h.quiet rfl rfl le_rfl (fun _ r hr _ _ => hr) rfl fun c'' hc'' =>
      exists_putCredential (hid ▸ hc) hc''
  | @closed db t k =>
    have hne : s.tokenHash ≠ k := fun heq =>
      (hkept _ (List.mem_singleton_self _)).1 (congrArg LocalEvent.closed heq.symm)
    refine h.quiet rfl rfl le_rfl (fun _ r hr _ _ => ?_) rfl fun c hc => ⟨c, hc⟩
    have hrk : r.tokenHash ≠ k := fun heq => hne ((Table.key_of_get? hr).symm.trans heq)
    rw [Table.get?_filter, hr, Option.filter_some, if_pos (by simpa using hrk)]
  | @changed db t userId =>
    have hne : s.userId ≠ userId := fun heq =>
      (hkept _ (List.mem_singleton_self _)).2 (congrArg LocalEvent.changed heq.symm)
    refine h.quiet rfl rfl le_rfl (fun _ r hr huser _ => ?_) rfl fun c hc => ⟨c, hc⟩
    have hru : r.userId ≠ userId := fun heq => hne (huser.symm.trans heq)
    rw [Table.get?_filter, hr, Option.filter_some, if_pos (by simpa using hru)]
  | @issued db t raw userId sessions hinsert =>
    refine h.quiet rfl rfl le_rfl (fun hend r hr _ hexpires => ?_) rfl fun c hc => ⟨c, hc⟩
    refine Table.get?_insert_of_get? hinsert ?_
    have hlive : ¬ r.expiresAt ≤ t := by
      rw [hexpires]
      exact not_le.mpr hend
    rw [Table.get?_filter, hr, Option.filter_some, if_pos (by simpa using hlive)]

theorem alive_of_changes {s : LocalSession} {w w' : LocalWorld} {es : List LocalEvent}
    (hw : Alive s [] w) (h : LocalChanges env w es w') (hsteady : Steady s es) :
    Alive s es w' := by
  have halive : Steady s ([] ++ es) → Alive s ([] ++ es) w' := by
    refine h.traceInvariant (fun es w => Steady s es → Alive s es w) (fun hw hstep hall => ?_)
      fun _ => hw
    exact alive_step (hw hall.left) hstep hall
  exact halive hsteady

/-- A new session of a user who exists. -/
theorem alive_issued {s : LocalSession} {w w' : LocalWorld} {es fs : List LocalEvent}
    (h : LocalChange env w (es ++ .issued s :: fs) w')
    (haccount : ∃ a, w'.db.accounts.get? s.userId = some a)
    (hcredential : ∃ c, w'.db.credentials.get? s.userId = some c) :
    fs = [] ∧ Alive s [] w' := by
  generalize hall : es ++ .issued s :: fs = all at h
  have hmem : .issued s ∈ all := hall ▸ List.mem_append_right _ (List.mem_cons_self ..)
  cases h with
  | @issued db t raw userId sessions hinsert =>
    obtain rfl : s = newSession raw userId t := by simpa using hmem
    refine ⟨?_, rfl, fun _ => ?_, haccount, hcredential⟩
    · have hlength := congrArg List.length hall
      rw [List.length_append, List.length_cons, List.length_singleton] at hlength
      exact List.length_eq_zero_iff.mp (by omega)
    · refine ⟨newSession raw userId t, ?_, rfl, rfl, fun u hu => ?_⟩
      · exact (Table.get?_insert hinsert _).trans (if_pos rfl)
      · obtain rfl : t = u := by simpa [newSession, presentedTimes] using hu
        exact Int.lt_add_of_pos_right t (by decide)
  | wait | refused | accepted | failed | passed | closed | changed => simp at hmem

/-- No account and no credential goes away. -/
theorem LocalChange.keeps_user {w w' : LocalWorld} {es : List LocalEvent} {userId : String}
    (h : LocalChange env w es w')
    (hw : (∃ a, w.db.accounts.get? userId = some a) ∧ ∃ c, w.db.credentials.get? userId = some c) :
    (∃ a, w'.db.accounts.get? userId = some a) ∧
      ∃ c, w'.db.credentials.get? userId = some c := by
  obtain ⟨haccount, c, hc⟩ := hw
  cases h with
  | wait | refused | closed | changed | issued => exact ⟨haccount, c, hc⟩
  | @accepted db t request session account horder hadmitted =>
    obtain ⟨haccounts, hcredentials⟩ := seen_others db session t
    exact ⟨haccounts ▸ haccount, c, hcredentials ▸ hc⟩
  | @failed db t c' hc' hopen =>
    have hold : db.credentials.get? (c'.fail t).userId = some c' := hc'
    exact ⟨haccount, exists_putCredential hold hc⟩
  | @passed db t c' c'' hc' hopen hc'' =>
    have hid : c''.userId = c'.userId := by rw [hc'']
    exact ⟨haccount, exists_putCredential (hid ▸ hc') hc⟩

/-- A session of a user who exists is accepted whenever it is presented often enough. -/
theorem accepted_of_steady {s : LocalSession} {w w' : LocalWorld} {es fs : List LocalEvent}
    (huser : (∃ a, w.db.accounts.get? s.userId = some a) ∧
      ∃ c, w.db.credentials.get? s.userId = some c)
    (h : LocalChanges env w (es ++ .issued s :: fs) w') (hsteady : Steady s fs) :
    acceptedTimes s.tokenHash fs = presentedTimes s.tokenHash fs := by
  obtain ⟨u, v, es₁, es₂, fs₁, fs₂, rfl, rfl, hbefore, hstep, hafter⟩ := h.split
  have hu := hbefore.invariant _ (fun hw hstep => hstep.keeps_user hw) huser
  obtain ⟨haccount, hcredential⟩ := hstep.keeps_user hu
  obtain ⟨rfl, halive⟩ := alive_issued hstep haccount hcredential
  exact (alive_of_changes halive hafter hsteady).accepted_eq

/-! ## All of it -/

omit [Unicode] in
theorem append_of_notMem {α : Type} {a : α} {l m es fs : List α} (hl : a ∉ l)
    (h : l ++ m = es ++ a :: fs) : ∃ cs, m = cs ++ a :: fs := by
  rcases List.append_eq_append_iff.mp h with ⟨cs, -, hm⟩ | ⟨cs, rfl, hcs⟩
  · exact ⟨cs, hm⟩
  · cases cs with
    | nil => exact ⟨[], hcs.symm⟩
    | cons c cs =>
      obtain ⟨rfl, -⟩ := List.cons.inj hcs
      exact absurd (List.mem_append_right _ (List.mem_cons_self ..)) hl

theorem changed_notMem_callerEvents {db : LocalDb} {request : LocalRequest} {t : Instant}
    {userId : String} : .changed userId ∉ callerEvents env db request t := by
  rw [callerEvents]
  split <;> split <;> simp

omit [Unicode] in
/-- The session that is issued with a new password. -/
theorem issued_of_passwordEvents {verdict : Verdict} {t : Instant} {ok : Bool} {userId : String}
    {ends es fs : List LocalEvent} {session : LocalCredential → LocalSession}
    (hends : ∀ e ∈ ends, ∀ id, e = .changed id → ends = [e] ∧ ∀ c, (session c).userId = id)
    (h : passwordEvents verdict t ok ends session = es ++ .changed userId :: fs) :
    ∃ s, fs = [.issued s] ∧ s.userId = userId := by
  cases verdict with
  | unknown | blocked => simp [passwordEvents] at h
  | failed c => cases es <;> simp [passwordEvents] at h
  | verified c =>
    cases ok with
    | false => simp [passwordEvents] at h
    | true =>
      have hsplit : [.passed c.userId t] ++ (ends ++ [.issued (session c)]) =
          es ++ .changed userId :: fs := h
      obtain ⟨cs, hcs⟩ := append_of_notMem (by simp) hsplit
      have hmem : .changed userId ∈ ends := by
        have hall : .changed userId ∈ ends ++ [.issued (session c)] :=
          hcs ▸ List.mem_append_right _ (List.mem_cons_self ..)
        simpa using hall
      obtain ⟨hone, huser⟩ := hends _ hmem userId rfl
      rw [hone] at hcs
      cases cs with
      | nil => exact ⟨session c, (List.cons.inj hcs).2.symm, huser c⟩
      | cons x cs =>
        have htail := (List.cons.inj hcs).2
        cases cs <;> simp at htail

/-- A new password comes with a session of its user. -/
theorem LocalStep.issued_of_changed {w w' : LocalWorld} {es fs : List LocalEvent}
    {userId : String} (h : LocalStep env hasher w (es ++ .changed userId :: fs) w') :
    ∃ s, fs = [.issued s] ∧ s.userId = userId := by
  generalize hall : es ++ .changed userId :: fs = all at h
  obtain ⟨op, -⟩ := h
  rename_i db clock
  obtain ⟨request, call⟩ := op
  have hmem : .changed userId ∈ LocalOp.events env hasher ⟨request, call⟩ db :=
    hall ▸ List.mem_append_right _ (List.mem_cons_self ..)
  cases call with
  | login username password salt raw verifiedAt issuedAt =>
    simp only [LocalOp.events] at hall
    split at hall
    · simp at hall
    · refine issued_of_passwordEvents ?_ hall.symm
      split <;> simp
  | visit instant => exact absurd hmem changed_notMem_callerEvents
  | logout instant =>
    rcases List.mem_append.mp hmem with hmem | hmem
    · exact absurd hmem changed_notMem_callerEvents
    · split at hmem <;> simp at hmem
  | changePassword currentPassword newPassword salt newSalt raw resolvedAt verifiedAt issuedAt =>
    obtain ⟨cs, hcs⟩ := append_of_notMem changed_notMem_callerEvents hall.symm
    split at hcs
    · refine issued_of_passwordEvents ?_ hcs
      rintro e he id rfl
      obtain rfl : id = _ := by simpa using he
      exact ⟨rfl, fun _ => rfl⟩
    · simp at hcs

/-- A session is accepted only within the idle time after it was issued or accepted, and before
its end. It is accepted until then when it is presented often enough. And after a new password
only the session issued with it is accepted, until the user signs in again. -/
theorem session_lifetime (env : LocalEnv) (hasher : Hasher) :
    (∀ w w' es s t fs, w.db.sessions.rows = [] →
      Run (LocalStep env hasher) w (es ++ .accepted s t :: fs) w' →
        (∃ u, UsedAt es s.tokenHash u ∧ u ≤ t ∧ t < u + idleLifetime) ∧
          ∃ s₀, .issued s₀ ∈ es ∧ s₀.tokenHash = s.tokenHash ∧ s₀.userId = s.userId ∧
            t < s₀.createdAt + sessionLifetime) ∧
    (∀ w w' es s fs, ((∃ a, w.db.accounts.get? s.userId = some a) ∧
        ∃ c, w.db.credentials.get? s.userId = some c) →
      Run (LocalStep env hasher) w (es ++ .issued s :: fs) w' → Steady s fs →
        acceptedTimes s.tokenHash fs = presentedTimes s.tokenHash fs) ∧
    ∀ w w' es userId fs, Run (LocalStep env hasher) w (es ++ .changed userId :: fs) w' →
      ∃ s rest, fs = .issued s :: rest ∧ s.userId = userId ∧
        ∀ gs s' t hs, rest = gs ++ .accepted s' t :: hs → s'.userId = userId →
          s'.tokenHash = s.tokenHash ∨
            ∃ s₀, .issued s₀ ∈ gs ∧ s₀.tokenHash = s'.tokenHash ∧ s₀.userId = userId := by
  refine ⟨fun w w' es s t fs hempty h => accepted_recently hempty (changes_of_run h),
    fun w w' es s fs huser h hsteady => accepted_of_steady huser (changes_of_run h) hsteady,
    fun w w' es userId fs h => ?_⟩
  obtain ⟨u, v, es₁, es₂, fs₁, fs₂, rfl, hfs, -, hstep, -⟩ := h.split
  obtain ⟨s, rfl, huser⟩ := hstep.issued_of_changed
  obtain rfl : fs = .issued s :: fs₂ := hfs
  refine ⟨s, fs₂, rfl, huser, fun gs s' t hs hrest huser' => ?_⟩
  have hchanges := changes_of_run h
  rw [hrest, ← List.cons_append] at hchanges
  obtain ⟨s₀, hs₀, hkey, hid⟩ := issued_of_accepted huser' hchanges
  rcases List.mem_cons.mp hs₀ with heq | hs₀
  · cases heq
    exact .inl hkey.symm
  · exact .inr ⟨s₀, hs₀, hkey, hid⟩

end VardrMap.LocalAuth
