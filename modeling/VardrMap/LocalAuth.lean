import VardrMap.Lib.Hmac
import VardrMap.Models

/-!
# Local accounts

A local account signs in with a password and holds browser sessions, each a cookie whose digest
is stored. Failed attempts are counted on the credential and lock it. A session ends after a
fixed time, or when it was idle; its last use is written at most once a minute. The password
hasher is a parameter, and so are the salts and the cookies that it draws.
-/
namespace VardrMap.LocalAuth
open Lib

/-! ## The stored rows -/

/-- A row of `users`, as far as sessions read it. -/
structure Account where
  githubId : String
  username : Text
  email : Text
  deriving DecidableEq

structure LocalCredential where
  userId : String
  username : Text
  passwordHash : Text
  failedAttempts : ℕ
  lastFailureAt : Option Instant
  lockedUntil : Option Instant
  deriving DecidableEq

structure LocalSession where
  tokenHash : String
  userId : String
  createdAt : Instant
  lastSeenAt : Instant
  expiresAt : Instant
  deriving DecidableEq

instance : Keyed Account String := ⟨Account.githubId⟩
instance : Keyed LocalCredential String := ⟨LocalCredential.userId⟩
instance : Keyed LocalSession String := ⟨LocalSession.tokenHash⟩

structure LocalDb where
  accounts : Table Account
  credentials : Table LocalCredential
  sessions : Table LocalSession

/-- `SESSION_LIFETIME`. -/
def sessionLifetime : Instant := 8 * 3600 * 1000000

/-- `IDLE_LIFETIME`. -/
def idleLifetime : Instant := 30 * 60 * 1000000

/-- `FAILURE_WINDOW`. -/
def failureWindow : Instant := 15 * 60 * 1000000

/-- How old the time of the last use may get before it is written again. -/
def seenInterval : Instant := 60 * 1000000

/-! ## Requests -/

/-- The environment, with the default of a variable that is not set. -/
structure LocalEnv where
  authMethods : Text
  jwtSecret : Text
  allowedOrigins : Text

structure LocalRequest where
  method : String
  scheme : String
  origin : Option Text
  authorization : Option Text
  cookie : Text
  csrfToken : Text

/-- `PASSWORD_HASHER`: `verify` is false where the hasher raises, and `hash` takes its salt. -/
structure Hasher where
  verify : Text → Text → Bool
  needsRehash : Text → Bool
  hash : Text → Text → Text

def LocalRequest.writes (request : LocalRequest) : Bool :=
  !(["GET", "HEAD", "OPTIONS"].contains request.method)

/-- `digest`. -/
def digest (value : Text) : String := Sha256.ofText value

/-- `csrf_token`. -/
def csrfToken (env : LocalEnv) (rawSession : Text) : Except Refusal Text := do
  ensure (32 ≤ env.jwtSecret.length) (.http 500 "Local authentication is not configured")
  return Sha256.hmac (Sha256.utf8 env.jwtSecret)
    (Sha256.utf8 ("vardrmap-csrf-v1:".toList ++ rawSession))

/-- `re.fullmatch(r"[0-9a-f]{64}", supplied)`. -/
def isToken (supplied : Text) : Bool :=
  supplied.length == 64 && supplied.all fun c => c.isDigit || ('a' ≤ c && c ≤ 'f')

/-- The token that a writing request has to carry besides its cookie. -/
def checkCsrf (env : LocalEnv) (request : LocalRequest) : Except Refusal Unit :=
  if request.writes then do
    ensure (isToken request.csrfToken) (.http 403 "Invalid CSRF token")
    let expected ← csrfToken env request.cookie
    ensure (request.csrfToken == expected) (.http 403 "Invalid CSRF token")
  else .ok ()

section
variable [Unicode]

/-- `auth_methods`. -/
def authMethods (env : LocalEnv) : Except Refusal (List Text) := do
  let values := ((Text.fields ',' env.authMethods).map Text.strip).eraseDups
  ensure (values.all fun v => v == "github".toList || v == "local".toList)
    (.http 500 "Internal Server Error")
  return values

/-- `require_local`. -/
def requireLocal (env : LocalEnv) : Except Refusal Unit := do
  let methods ← authMethods env
  ensure (methods.contains "local".toList) (.http 404 "Not found")

/-- The origin of a writing request is one of the allowed ones. -/
def checkOrigin (env : LocalEnv) (request : LocalRequest) (write : Bool) : Except Refusal Unit :=
  let allowed := ((Text.fields ',' env.allowedOrigins).map Text.strip).filter fun o => !o.isEmpty
  ensure (!write || request.origin.any allowed.contains) (.http 403 "Invalid request origin")

/-- `check_transport`. -/
def checkTransport (env : LocalEnv) (request : LocalRequest) (write : Bool) :
    Except Refusal Unit := do
  requireLocal env
  ensure (request.scheme == "https") (.http 400 "Local authentication requires HTTPS")
  checkOrigin env request write

/-! ## Passwords -/

/-- `validate_password`. -/
def validatePassword (password : Text) : Except Refusal Unit :=
  ensure (15 ≤ password.length && password.length ≤ 128 && !(Text.strip password).isEmpty)
    (.http 400 "Use a password or passphrase containing 15 to 128 characters")

/-- `re.fullmatch(r"[a-z0-9][a-z0-9._-]{2,63}", normalized)`. -/
def isUsername (normalized : Text) : Bool :=
  let alphanumeric := fun c : Char => c.isDigit || ('a' ≤ c && c ≤ 'z')
  match normalized with
  | [] => false
  | c :: cs => alphanumeric c && 2 ≤ cs.length && cs.length ≤ 63 &&
      cs.all fun d => alphanumeric d || ['.', '_', '-'].contains d

/-- The credential that a username names. -/
def LocalDb.credentialOf (db : LocalDb) (username : Text) : Option LocalCredential :=
  let normalized := Unicode.lower (Text.strip username)
  if isUsername normalized then db.credentials.rows.find? fun c => c.username == normalized
  else none

end

def LocalCredential.blocked (c : LocalCredential) (instant : Instant) : Bool :=
  c.lockedUntil.any (instant < ·)

/-- The credential after a password that failed. -/
def LocalCredential.fail (c : LocalCredential) (instant : Instant) : LocalCredential :=
  let failedAttempts := (if c.lastFailureAt.all (· ≤ instant - failureWindow) then 0
    else c.failedAttempts) + 1
  { c with
    failedAttempts
    lastFailureAt := some instant
    lockedUntil := if 5 ≤ failedAttempts then some (instant + failureWindow) else c.lockedUntil }

/-- The credential after a password that was verified. -/
def LocalCredential.pass (hasher : Hasher) (c : LocalCredential) (password salt : Text) :
    LocalCredential :=
  { c with
    failedAttempts := 0
    lockedUntil := none
    lastFailureAt := none
    passwordHash := if hasher.needsRehash c.passwordHash then hasher.hash salt password
      else c.passwordHash }

/-- What `verify_login` finds: no credential, a locked one, one as it is committed after a
failure, and one that is still to be committed after a success. -/
inductive Verdict where
  | unknown
  | blocked
  | failed (credential : LocalCredential)
  | verified (credential : LocalCredential)

/-- The database with a credential replaced. -/
def LocalDb.putCredential (db : LocalDb) (c : LocalCredential) : LocalDb :=
  { db with credentials := db.credentials.put c }

variable [Unicode]

/-- `verify_login`. Without a credential, or with a locked one, the password is verified against
a dummy hash and refused whatever comes out. -/
def verifyLogin (hasher : Hasher) (db : LocalDb) (username password salt : Text)
    (instant : Instant) : Verdict :=
  match db.credentialOf username with
  | none => .unknown
  | some credential =>
    if credential.blocked instant then .blocked
    else if hasher.verify credential.passwordHash password then
      .verified (credential.pass hasher password salt)
    else .failed (credential.fail instant)

/-- The refusal of every attempt that fails. -/
def signInFailed : Refusal := .http 401 "Sign-in failed"

/-! ## Sessions -/

/-- The row of a new session. -/
def newSession (raw : Text) (userId : String) (instant : Instant) : LocalSession where
  tokenHash := digest raw
  userId
  createdAt := instant
  lastSeenAt := instant
  expiresAt := instant + sessionLifetime

omit [Unicode] in
/-- `issue_session`, with the database that it commits. -/
def issueSession (env : LocalEnv) (db : LocalDb) (userId : String) (previous raw : Text)
    (instant : Instant) : Except Refusal LocalDb := do
  let _ ← csrfToken env raw
  let others := if previous.isEmpty then db.sessions
    else db.sessions.filter fun s => s.tokenHash != digest previous
  let live := others.filter fun s => !(s.expiresAt ≤ instant)
  let sessions ← found (live.insert (newSession raw userId instant)) .integrity
  return { db with sessions }

/-- What `resolve_session` checks: the session and the account that it admits. -/
def admitted (env : LocalEnv) (db : LocalDb) (request : LocalRequest) (instant : Instant) :
    Except Refusal (LocalSession × Account) := do
  let methods ← authMethods env
  ensure (methods.contains "local".toList) (.http 401 "Unauthorized")
  checkTransport env request request.writes
  ensure (!request.cookie.isEmpty && request.cookie.length ≤ 128) (.http 401 "Unauthorized")
  let session ← found (db.sessions.get? (digest request.cookie)) (.http 401 "Unauthorized")
  ensure (!(session.expiresAt ≤ instant) && !(session.lastSeenAt ≤ instant - idleLifetime))
    (.http 401 "Unauthorized")
  checkCsrf env request
  let account ← found (db.accounts.get? session.userId) (.http 401 "Unauthorized")
  let _ ← found (db.credentials.get? session.userId) (.http 401 "Unauthorized")
  return (session, account)

omit [Unicode] in
/-- The database with the time of the last use of a session, written when it is old enough. -/
def LocalDb.seen (db : LocalDb) (session : LocalSession) (instant : Instant) : LocalDb :=
  if session.lastSeenAt ≤ instant - seenInterval then
    { db with sessions := db.sessions.put { session with lastSeenAt := instant } }
  else db

/-- `resolve_session`. Its commit finds the row that it has read: calls come one by one. -/
def resolveSession (env : LocalEnv) (db : LocalDb) (request : LocalRequest) (instant : Instant) :
    Except Refusal Account × LocalDb :=
  match admitted env db request instant with
  | .ok (session, account) => (.ok account, db.seen session instant)
  | .error e => (.error e, db)

/-- `get_current_user`, for the endpoints that want a local session: a caller with another
credential is refused there. -/
def currentUser (env : LocalEnv) (db : LocalDb) (request : LocalRequest) (instant : Instant) :
    Except Refusal Account × LocalDb :=
  if env.jwtSecret.isEmpty then (.error (.http 500 "Server auth not configured"), db)
  else if (request.authorization.getD []).isEmpty && !request.cookie.isEmpty then
    resolveSession env db request instant
  else (.error (.http 401 "Unauthorized"), db)

/-! ## The endpoints -/

/-- `login`. -/
def login (env : LocalEnv) (hasher : Hasher) (db : LocalDb) (request : LocalRequest)
    (username password salt raw : Text) (verifiedAt issuedAt : Instant) :
    Except Refusal Text × LocalDb :=
  match checkTransport env request true with
  | .error e => (.error e, db)
  | .ok () =>
    match verifyLogin hasher db username password salt verifiedAt with
    | .unknown | .blocked => (.error signInFailed, db)
    | .failed credential => (.error signInFailed, db.putCredential credential)
    | .verified credential =>
      match issueSession env (db.putCredential credential) credential.userId request.cookie raw
        issuedAt with
      | .error e => (.error e, db)
      | .ok db' => (.ok raw, db')

/-- `logout`. -/
def logout (env : LocalEnv) (db : LocalDb) (request : LocalRequest) (instant : Instant) :
    Except Refusal Unit × LocalDb :=
  match currentUser env db request instant with
  | (.error e, db) => (.error e, db)
  | (.ok _, db) =>
    (.ok (), { db with sessions := db.sessions.filter fun s => s.tokenHash != digest request.cookie })

/-- The database with a new password and without the sessions of a user, before the new session
is issued. -/
def LocalDb.renewed (db : LocalDb) (credential : LocalCredential) (passwordHash : Text)
    (userId : String) : LocalDb :=
  { db.putCredential { credential with passwordHash } with
    sessions := db.sessions.filter fun s => s.userId != userId }

/-- `change_password`. -/
def changePassword (env : LocalEnv) (hasher : Hasher) (db : LocalDb) (request : LocalRequest)
    (currentPassword newPassword salt newSalt raw : Text)
    (resolvedAt verifiedAt issuedAt : Instant) : Except Refusal Text × LocalDb :=
  match currentUser env db request resolvedAt with
  | (.error e, db) => (.error e, db)
  | (.ok user, db) =>
    match validatePassword newPassword with
    | .error e => (.error e, db)
    | .ok () =>
      match verifyLogin hasher db user.username currentPassword salt verifiedAt with
      | .unknown | .blocked => (.error signInFailed, db)
      | .failed credential => (.error signInFailed, db.putCredential credential)
      | .verified credential =>
        match issueSession env
          (db.renewed credential (hasher.hash newSalt newPassword) user.githubId)
          user.githubId [] raw issuedAt with
        | .error e => (.error e, db)
        | .ok db' => (.ok raw, db')

end VardrMap.LocalAuth
