import VardrMap.LocalAuth
import VardrMap.Lib.Runs

/-!
# Calls one after the other

The calls that concern local accounts, each with its readings of a clock that never goes back,
and what can be seen of a call: passwords that failed or were verified, sessions that were
presented, accepted, issued and closed. Every call is a sequence of changes, each with at most
one effect on the stored rows.
-/
namespace VardrMap.LocalAuth
open Lib

/-! ## The calls -/

/-- A sign-in, any request that resolves its caller, a sign-out, or a new password. -/
inductive LocalCall where
  | login (username password salt raw : Text) (verifiedAt issuedAt : Instant)
  | visit (instant : Instant)
  | logout (instant : Instant)
  | changePassword (currentPassword newPassword salt newSalt raw : Text)
      (resolvedAt verifiedAt issuedAt : Instant)

structure LocalOp where
  request : LocalRequest
  call : LocalCall

/-- What can be seen of a call. -/
inductive LocalEvent where
  | failed (userId : String) (instant : Instant)
  | passed (userId : String) (instant : Instant)
  | presented (tokenHash : String) (instant : Instant)
  | accepted (session : LocalSession) (instant : Instant)
  | closed (tokenHash : String)
  | changed (userId : String)
  | issued (session : LocalSession)

/-- The readings of the clock, in order. -/
def LocalCall.readings : LocalCall → List Instant
  | .login _ _ _ _ verifiedAt issuedAt => [verifiedAt, issuedAt]
  | .visit instant => [instant]
  | .logout instant => [instant]
  | .changePassword _ _ _ _ _ resolvedAt verifiedAt issuedAt => [resolvedAt, verifiedAt, issuedAt]

/-- The clock after a call. -/
def LocalCall.after (call : LocalCall) (clock : Instant) : Instant :=
  call.readings.getLastD clock

/-- What is stored, and the last reading of the clock. -/
structure LocalWorld where
  db : LocalDb
  clock : Instant

variable [Unicode]

/-- The request is in order but for the time: transport, cookie and token. -/
def LocalRequest.InOrder (env : LocalEnv) (request : LocalRequest) : Prop :=
  env.jwtSecret ≠ [] ∧ request.authorization.getD [] = [] ∧
    request.cookie ≠ [] ∧ request.cookie.length ≤ 128 ∧
    checkTransport env request request.writes = .ok () ∧ checkCsrf env request = .ok ()

instance (env : LocalEnv) (request : LocalRequest) : Decidable (request.InOrder env) := by
  unfold LocalRequest.InOrder
  infer_instance

/-- The events of `currentUser`. -/
def callerEvents (env : LocalEnv) (db : LocalDb) (request : LocalRequest) (instant : Instant) :
    List LocalEvent :=
  (if request.InOrder env then [.presented (digest request.cookie) instant] else []) ++
    match (currentUser env db request instant).1, db.sessions.get? (digest request.cookie) with
    | .ok _, some session => [.accepted session instant]
    | _, _ => []

omit [Unicode] in
/-- The events of a verified password whose session is issued, and those of one that failed. -/
def passwordEvents (verdict : Verdict) (instant : Instant) (issued : Bool)
    (ends : List LocalEvent) (session : LocalCredential → LocalSession) : List LocalEvent :=
  match verdict with
  | .unknown | .blocked => []
  | .failed credential => [.failed credential.userId instant]
  | .verified credential =>
    if issued then .passed credential.userId instant :: ends ++ [.issued (session credential)]
    else []

/-- The events of a call. -/
def LocalOp.events (env : LocalEnv) (hasher : Hasher) (op : LocalOp) (db : LocalDb) :
    List LocalEvent :=
  let request := op.request
  match op.call with
  | .login username password salt raw verifiedAt issuedAt =>
    match checkTransport env request true with
    | .error _ => []
    | .ok () =>
      passwordEvents (verifyLogin hasher db username password salt verifiedAt) verifiedAt
        (login env hasher db request username password salt raw verifiedAt issuedAt).1.isOk
        (if request.cookie.isEmpty then [] else [.closed (digest request.cookie)])
        fun c => newSession raw c.userId issuedAt
  | .visit instant => callerEvents env db request instant
  | .logout instant => callerEvents env db request instant ++
      if (logout env db request instant).1.isOk then [.closed (digest request.cookie)] else []
  | .changePassword currentPassword newPassword salt newSalt raw resolvedAt verifiedAt issuedAt =>
    callerEvents env db request resolvedAt ++
      match currentUser env db request resolvedAt, validatePassword newPassword with
      | (.ok user, db'), .ok () =>
        passwordEvents (verifyLogin hasher db' user.username currentPassword salt verifiedAt)
          verifiedAt
          (changePassword env hasher db request currentPassword newPassword salt newSalt raw
            resolvedAt verifiedAt issuedAt).1.isOk
          [.changed user.githubId] fun _ => newSession raw user.githubId issuedAt
      | _, _ => []

/-- The database after a call. -/
def LocalOp.run (env : LocalEnv) (hasher : Hasher) (op : LocalOp) (db : LocalDb) : LocalDb :=
  match op.call with
  | .login username password salt raw verifiedAt issuedAt =>
    (login env hasher db op.request username password salt raw verifiedAt issuedAt).2
  | .visit instant => (currentUser env db op.request instant).2
  | .logout instant => (logout env db op.request instant).2
  | .changePassword currentPassword newPassword salt newSalt raw resolvedAt verifiedAt issuedAt =>
    (changePassword env hasher db op.request currentPassword newPassword salt newSalt raw
      resolvedAt verifiedAt issuedAt).2

/-- A call, under a clock that does not go back. -/
inductive LocalStep (env : LocalEnv) (hasher : Hasher) :
    LocalWorld → List LocalEvent → LocalWorld → Prop
  | call {db : LocalDb} {clock : Instant} (op : LocalOp)
    (h : (clock :: op.call.readings).IsChain (· ≤ ·)) :
    LocalStep env hasher ⟨db, clock⟩ (op.events env hasher db)
      ⟨op.run env hasher db, op.call.after clock⟩

/-! ## The changes -/

/-- What a call is made of. -/
inductive LocalChange (env : LocalEnv) : LocalWorld → List LocalEvent → LocalWorld → Prop
  | wait {db : LocalDb} {t u : Instant} (h : t ≤ u) : LocalChange env ⟨db, t⟩ [] ⟨db, u⟩
  | refused {db : LocalDb} {t : Instant} {request : LocalRequest} (h : request.InOrder env)
    (hadmitted : ∀ r, admitted env db request t ≠ .ok r) :
    LocalChange env ⟨db, t⟩ [.presented (digest request.cookie) t] ⟨db, t⟩
  | accepted {db : LocalDb} {t : Instant} {request : LocalRequest} {session : LocalSession}
    {account : Account} (h : request.InOrder env)
    (hadmitted : admitted env db request t = .ok (session, account)) :
    LocalChange env ⟨db, t⟩ [.presented (digest request.cookie) t, .accepted session t]
      ⟨db.seen session t, t⟩
  | failed {db : LocalDb} {t : Instant} {c : LocalCredential}
    (hc : db.credentials.get? c.userId = some c) (hopen : c.blocked t = false) :
    LocalChange env ⟨db, t⟩ [.failed c.userId t] ⟨db.putCredential (c.fail t), t⟩
  | passed {db : LocalDb} {t : Instant} {c c' : LocalCredential}
    (hc : db.credentials.get? c.userId = some c) (hopen : c.blocked t = false)
    (hc' : c' = { c with
      failedAttempts := 0, lastFailureAt := none, lockedUntil := none
      passwordHash := c'.passwordHash }) :
    LocalChange env ⟨db, t⟩ [.passed c.userId t] ⟨db.putCredential c', t⟩
  | closed {db : LocalDb} {t : Instant} (k : String) :
    LocalChange env ⟨db, t⟩ [.closed k]
      ⟨{ db with sessions := db.sessions.filter fun s => s.tokenHash != k }, t⟩
  | changed {db : LocalDb} {t : Instant} (userId : String) :
    LocalChange env ⟨db, t⟩ [.changed userId]
      ⟨{ db with sessions := db.sessions.filter fun s => s.userId != userId }, t⟩
  | issued {db : LocalDb} {t : Instant} {raw : Text} {userId : String}
    {sessions : Table LocalSession}
    (h : (db.sessions.filter fun s => !(s.expiresAt ≤ t)).insert (newSession raw userId t) =
      some sessions) :
    LocalChange env ⟨db, t⟩ [.issued (newSession raw userId t)] ⟨{ db with sessions }, t⟩

variable {env : LocalEnv} {hasher : Hasher}

abbrev LocalChanges (env : LocalEnv) : LocalWorld → List LocalEvent → LocalWorld → Prop :=
  Run (LocalChange env)

/-- Who is admitted has sent a request in order. -/
theorem admitted_eq_ok {db : LocalDb} {request : LocalRequest} {t : Instant}
    {session : LocalSession} {account : Account}
    (h : admitted env db request t = .ok (session, account)) :
    checkTransport env request request.writes = .ok () ∧
      (request.cookie ≠ [] ∧ request.cookie.length ≤ 128) ∧
      db.sessions.get? (digest request.cookie) = some session ∧
      (t < session.expiresAt ∧ t < session.lastSeenAt + idleLifetime) ∧
      checkCsrf env request = .ok () ∧ db.accounts.get? session.userId = some account := by
  obtain ⟨methods, -, h⟩ := bind_eq_ok h
  obtain ⟨_, _, h⟩ := bind_eq_ok h
  obtain ⟨_, htransport, h⟩ := bind_eq_ok h
  obtain ⟨_, hcookie, h⟩ := bind_eq_ok h
  obtain ⟨s, hs, h⟩ := bind_eq_ok h
  obtain ⟨_, htime, h⟩ := bind_eq_ok h
  obtain ⟨_, hcsrf, h⟩ := bind_eq_ok h
  obtain ⟨a, ha, h⟩ := bind_eq_ok h
  obtain ⟨c, -, h⟩ := bind_eq_ok h
  obtain ⟨rfl, rfl⟩ := Prod.mk.inj (Except.ok.inj h)
  have hcookie := ensure_eq_ok hcookie
  have htime := ensure_eq_ok htime
  simp only [Bool.and_eq_true, Bool.not_eq_true', List.isEmpty_eq_false_iff, decide_eq_true_eq,
    decide_eq_false_iff_not, not_le] at hcookie htime
  have hrecent := Int.lt_add_of_sub_right_lt htime.2
  exact ⟨htransport, hcookie, found_eq_ok hs, ⟨htime.1, hrecent⟩, hcsrf, found_eq_ok ha⟩

/-- A request in order is admitted as long as its session lasts. -/
theorem admitted_of_inOrder {db : LocalDb} {request : LocalRequest} {t : Instant}
    {session : LocalSession} {account : Account} {c : LocalCredential}
    (h : request.InOrder env) (hs : db.sessions.get? (digest request.cookie) = some session)
    (hexpires : t < session.expiresAt) (hidle : t < session.lastSeenAt + idleLifetime)
    (ha : db.accounts.get? session.userId = some account)
    (hc : db.credentials.get? session.userId = some c) :
    admitted env db request t = .ok (session, account) := by
  obtain ⟨-, -, hne, hlength, htransport, hcsrf⟩ := h
  obtain ⟨_, hlocal, -⟩ := bind_eq_ok htransport
  obtain ⟨methods, hmethods, hlocal⟩ := bind_eq_ok hlocal
  have hcookie : (!request.cookie.isEmpty && decide (request.cookie.length ≤ 128)) = true := by
    simpa using ⟨hne, hlength⟩
  have htime : (!decide (session.expiresAt ≤ t) &&
      !decide (session.lastSeenAt ≤ t - idleLifetime)) = true := by
    simp only [Bool.and_eq_true, Bool.not_eq_true', decide_eq_false_iff_not, not_le]
    exact ⟨hexpires, Int.sub_right_lt_of_lt_add hidle⟩
  rw [admitted, hmethods]
  simp only [bind, Except.bind, ensure, ensure_eq_ok hlocal, htransport, hcookie, found, hs, htime,
    hcsrf, ha, hc, if_true]
  rfl

/-- A call has a caller, or changes nothing for want of one. -/
theorem currentUser_cases (env : LocalEnv) (db : LocalDb) (request : LocalRequest) (t : Instant) :
    (∃ e, currentUser env db request t = (.error e, db) ∧
      (request.InOrder env → ∀ r, admitted env db request t ≠ .ok r)) ∨
    ∃ session account, currentUser env db request t = (.ok account, db.seen session t) ∧
      request.InOrder env ∧ admitted env db request t = .ok (session, account) := by
  by_cases hsecret : env.jwtSecret = []
  · exact .inl ⟨_, by rw [currentUser, hsecret]; rfl, fun h => absurd hsecret h.1⟩
  have hsecret' : env.jwtSecret.isEmpty = false := List.isEmpty_eq_false_iff.mpr hsecret
  by_cases hcookie : request.authorization.getD [] = [] ∧ request.cookie ≠ []
  · have hcookie' : ((request.authorization.getD []).isEmpty && !request.cookie.isEmpty) = true := by
      simpa using hcookie
    have hcurrent : currentUser env db request t = resolveSession env db request t := by
      rw [currentUser, hsecret', hcookie']
      rfl
    rw [hcurrent, resolveSession]
    cases hadmitted : admitted env db request t with
    | error e => exact .inl ⟨e, rfl, fun _ r => nofun⟩
    | ok r =>
      obtain ⟨session, account⟩ := r
      obtain ⟨htransport, ⟨hne, hlength⟩, -, -, hcsrf, -⟩ := admitted_eq_ok hadmitted
      exact .inr ⟨session, account, rfl, ⟨hsecret, hcookie.1, hne, hlength, htransport, hcsrf⟩, rfl⟩
  · have hcookie' : ((request.authorization.getD []).isEmpty && !request.cookie.isEmpty) = false := by
      rw [Bool.eq_false_iff]
      simpa using hcookie
    refine .inl ⟨.http 401 "Unauthorized", ?_, fun h => absurd ⟨h.2.1, h.2.2.1⟩ hcookie⟩
    rw [currentUser, hsecret', hcookie']
    rfl

/-- The caller of a call is resolved by changes. -/
theorem changes_currentUser (db : LocalDb) (request : LocalRequest) (t : Instant) :
    LocalChanges env ⟨db, t⟩ (callerEvents env db request t)
      ⟨(currentUser env db request t).2, t⟩ := by
  rcases currentUser_cases env db request t with
    ⟨e, hcurrent, hrefused⟩ | ⟨session, account, hcurrent, horder, hadmitted⟩
  · rw [callerEvents, hcurrent]
    by_cases horder : request.InOrder env
    · rw [if_pos horder]
      exact .single (.refused horder (hrefused horder))
    · rw [if_neg horder]
      exact .refl _
  · obtain ⟨-, -, hsession, -⟩ := admitted_eq_ok hadmitted
    rw [callerEvents, hcurrent, if_pos horder, hsession]
    exact .single (.accepted horder hadmitted)

theorem get?_of_credentialOf {db : LocalDb} {username : Text} {c : LocalCredential}
    (h : db.credentialOf username = some c) : db.credentials.get? c.userId = some c := by
  obtain ⟨-, h⟩ := Option.ite_none_right_eq_some.mp h
  exact Table.get?_of_mem (List.mem_of_find?_eq_some h)

/-- A password is verified on an open credential only. -/
theorem verifyLogin_cases (hasher : Hasher) (db : LocalDb) (username password salt : Text)
    (t : Instant) :
    verifyLogin hasher db username password salt t = .unknown ∨
      verifyLogin hasher db username password salt t = .blocked ∨
      ∃ c, db.credentials.get? c.userId = some c ∧ c.blocked t = false ∧
        (verifyLogin hasher db username password salt t = .failed (c.fail t) ∨
          verifyLogin hasher db username password salt t =
            .verified (c.pass hasher password salt)) := by
  rw [verifyLogin]
  cases hcredential : db.credentialOf username with
  | none => exact .inl rfl
  | some c =>
    cases hblocked : c.blocked t with
    | true => exact .inr (.inl (by simp only [hblocked, if_true]))
    | false =>
      refine .inr (.inr ⟨c, get?_of_credentialOf hcredential, hblocked, ?_⟩)
      cases hasher.verify c.passwordHash password <;> simp [hblocked]

theorem changes_wait {db : LocalDb} {t u : Instant} {es : List LocalEvent} {w : LocalWorld}
    (h : t ≤ u) (h' : LocalChanges env ⟨db, u⟩ es w) : LocalChanges env ⟨db, t⟩ es w :=
  Run.head (.wait h) h'

theorem changes_failed {db : LocalDb} {username password salt : Text} {t : Instant}
    {c : LocalCredential} (h : verifyLogin hasher db username password salt t = .failed c) :
    LocalChanges env ⟨db, t⟩ [.failed c.userId t] ⟨db.putCredential c, t⟩ := by
  rcases verifyLogin_cases hasher db username password salt t with
    hunknown | hblocked | ⟨stored, hstored, hopen, hfailed | hverified⟩
  · cases h.symm.trans hunknown
  · cases h.symm.trans hblocked
  · cases h.symm.trans hfailed
    exact .single (.failed hstored hopen)
  · cases h.symm.trans hverified

/-- A credential whose password was verified may get another hash. -/
theorem changes_passed {db : LocalDb} {username password salt : Text} {t : Instant}
    {c : LocalCredential} (h : verifyLogin hasher db username password salt t = .verified c)
    (passwordHash : Text) :
    LocalChanges env ⟨db, t⟩ [.passed c.userId t]
      ⟨db.putCredential { c with passwordHash }, t⟩ := by
  rcases verifyLogin_cases hasher db username password salt t with
    hunknown | hblocked | ⟨stored, hstored, hopen, hfailed | hverified⟩
  · cases h.symm.trans hunknown
  · cases h.symm.trans hblocked
  · cases h.symm.trans hfailed
  · cases h.symm.trans hverified
    exact .single (.passed (c := stored) hstored hopen rfl)

/-- The session that the cookie held is closed, and a new one is issued. -/
theorem changes_issueSession {db db' : LocalDb} {userId : String} {previous raw : Text}
    {t : Instant} (h : issueSession env db userId previous raw t = .ok db') :
    LocalChanges env ⟨db, t⟩
      ((if previous.isEmpty then [] else [.closed (digest previous)]) ++
        [.issued (newSession raw userId t)]) ⟨db', t⟩ := by
  obtain ⟨_, -, h⟩ := bind_eq_ok h
  obtain ⟨sessions, hinsert, h⟩ := bind_eq_ok h
  obtain rfl := Except.ok.inj h
  have hinsert := found_eq_ok hinsert
  by_cases hprevious : previous.isEmpty = true
  · rw [if_pos hprevious] at hinsert ⊢
    exact .single (.issued hinsert)
  · rw [if_neg hprevious] at hinsert ⊢
    have hclosed : LocalChanges env ⟨db, t⟩ _ _ := .single (.closed (digest previous))
    exact hclosed.tail (.issued hinsert)

theorem changes_login {db : LocalDb} {clock verifiedAt issuedAt : Instant}
    {request : LocalRequest} {username password salt raw : Text}
    (hverified : clock ≤ verifiedAt) (hissued : verifiedAt ≤ issuedAt) :
    LocalChanges env ⟨db, clock⟩
      (LocalOp.events env hasher
        ⟨request, .login username password salt raw verifiedAt issuedAt⟩ db)
      ⟨(login env hasher db request username password salt raw verifiedAt issuedAt).2,
        issuedAt⟩ := by
  have hwait : LocalChanges env ⟨db, clock⟩ [] ⟨db, issuedAt⟩ :=
    .single (.wait (hverified.trans hissued))
  simp only [LocalOp.events, login]
  cases checkTransport env request true with
  | error e => exact hwait
  | ok _ =>
    refine changes_wait hverified ?_
    cases hverdict : verifyLogin hasher db username password salt verifiedAt with
    | unknown => exact .single (.wait hissued)
    | blocked => exact .single (.wait hissued)
    | failed c => exact (changes_failed hverdict).tail (.wait hissued)
    | verified c =>
      cases hissue : issueSession env (db.putCredential c) c.userId request.cookie raw issuedAt with
      | error e =>
        simp only [hissue]
        exact .single (.wait hissued)
      | ok db' =>
        simp only [hissue]
        exact (changes_passed hverdict c.passwordHash).trans
          (changes_wait hissued (changes_issueSession hissue))

theorem changes_logout {db : LocalDb} {clock instant : Instant} {request : LocalRequest}
    (h : clock ≤ instant) :
    LocalChanges env ⟨db, clock⟩ (LocalOp.events env hasher ⟨request, .logout instant⟩ db)
      ⟨(logout env db request instant).2, instant⟩ := by
  refine changes_wait h ?_
  have hcaller : LocalChanges env _ _ _ := changes_currentUser db request instant
  obtain ⟨result, db', hcurrent⟩ : ∃ result db', currentUser env db request instant = (result, db') :=
    ⟨_, _, rfl⟩
  rw [hcurrent] at hcaller
  cases result with
  | error e =>
    simp only [LocalOp.events, logout, hcurrent]
    exact hcaller.trans (.refl _)
  | ok user =>
    simp only [LocalOp.events, logout, hcurrent]
    exact hcaller.tail (.closed _)

theorem changes_changePassword {db : LocalDb} {clock resolvedAt verifiedAt issuedAt : Instant}
    {request : LocalRequest} {currentPassword newPassword salt newSalt raw : Text}
    (hresolved : clock ≤ resolvedAt) (hverified : resolvedAt ≤ verifiedAt)
    (hissued : verifiedAt ≤ issuedAt) :
    LocalChanges env ⟨db, clock⟩
      (LocalOp.events env hasher ⟨request, .changePassword currentPassword newPassword salt newSalt
        raw resolvedAt verifiedAt issuedAt⟩ db)
      ⟨(changePassword env hasher db request currentPassword newPassword salt newSalt raw
        resolvedAt verifiedAt issuedAt).2, issuedAt⟩ := by
  refine changes_wait hresolved ?_
  have hcaller : LocalChanges env _ _ _ := changes_currentUser db request resolvedAt
  obtain ⟨result, db', hcurrent⟩ :
      ∃ result db', currentUser env db request resolvedAt = (result, db') := ⟨_, _, rfl⟩
  rw [hcurrent] at hcaller
  have hwait : LocalChanges env ⟨db', resolvedAt⟩ [] ⟨db', issuedAt⟩ :=
    .single (.wait (hverified.trans hissued))
  simp only [LocalOp.events, changePassword, hcurrent]
  refine hcaller.trans ?_
  cases result with
  | error e => exact hwait
  | ok user =>
    cases validatePassword newPassword with
    | error e => exact hwait
    | ok _ =>
      refine changes_wait hverified ?_
      cases hverdict : verifyLogin hasher db' user.username currentPassword salt verifiedAt with
      | unknown =>
        simp only [hverdict, passwordEvents]
        exact .single (.wait hissued)
      | blocked =>
        simp only [hverdict, passwordEvents]
        exact .single (.wait hissued)
      | failed c =>
        simp only [hverdict, passwordEvents]
        exact (changes_failed hverdict).tail (.wait hissued)
      | verified c =>
        cases hissue : issueSession env
          (db'.renewed c (hasher.hash newSalt newPassword) user.githubId) user.githubId [] raw
          issuedAt with
        | error e =>
          simp only [hverdict, passwordEvents, hissue]
          exact .single (.wait hissued)
        | ok db'' =>
          simp only [hverdict, passwordEvents, hissue]
          let passwordHash := hasher.hash newSalt newPassword
          have hchanged : LocalChanges env
              ⟨db'.putCredential { c with passwordHash }, issuedAt⟩ [.changed user.githubId]
              ⟨db'.renewed c passwordHash user.githubId, issuedAt⟩ :=
            .single (.changed user.githubId)
          exact (changes_passed hverdict passwordHash).trans
            (changes_wait hissued (hchanged.trans (changes_issueSession hissue)))

/-- A call is a sequence of changes. -/
theorem LocalStep.changes {w w' : LocalWorld} {es : List LocalEvent}
    (h : LocalStep env hasher w es w') : LocalChanges env w es w' := by
  obtain ⟨op, hclock⟩ := h
  rename_i db clock
  obtain ⟨request, call⟩ := op
  cases call with
  | login username password salt raw verifiedAt issuedAt =>
    obtain ⟨hverified, hissued⟩ := List.isChain_cons_cons.mp hclock
    exact changes_login hverified (List.isChain_cons_cons.mp hissued).1
  | visit instant =>
    exact changes_wait (List.isChain_cons_cons.mp hclock).1 (changes_currentUser db request instant)
  | logout instant => exact changes_logout (List.isChain_cons_cons.mp hclock).1
  | changePassword currentPassword newPassword salt newSalt raw resolvedAt verifiedAt issuedAt =>
    obtain ⟨hresolved, hclock⟩ := List.isChain_cons_cons.mp hclock
    obtain ⟨hverified, hclock⟩ := List.isChain_cons_cons.mp hclock
    exact changes_changePassword hresolved hverified (List.isChain_cons_cons.mp hclock).1

/-- Calls one after the other are a sequence of changes. -/
theorem changes_of_run {w w' : LocalWorld} {es : List LocalEvent}
    (h : Run (LocalStep env hasher) w es w') : LocalChanges env w es w' := by
  induction h with
  | refl => exact .refl _
  | tail _ last ih => exact ih.trans last.changes

end VardrMap.LocalAuth
