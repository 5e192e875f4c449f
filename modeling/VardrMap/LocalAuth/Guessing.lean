import VardrMap.LocalAuth.Calls
import VardrMap.Lib.Lockout
import Mathlib.Algebra.Order.Group.Int

/-!
# Guessing passwords

The three columns of a credential are a counter of failures that bars attempts at the limit, so
that no window without a sign-in lets more than five wrong passwords through.
-/
namespace VardrMap.LocalAuth
open Lib

/-! ## The counter of a credential -/

def LocalCredential.lockout (c : LocalCredential) : Lockout Instant :=
  ⟨c.failedAttempts, c.lastFailureAt, c.lockedUntil⟩

theorem lockout_fail (c : LocalCredential) (t : Instant) :
    (c.fail t).lockout = c.lockout.fail 5 failureWindow t := rfl

theorem barred_iff {c : LocalCredential} {t : Instant} :
    c.lockout.Barred t ↔ c.blocked t = true := by
  rw [LocalCredential.blocked, Option.any_eq_true]
  simp only [Lockout.Barred, LocalCredential.lockout, Option.mem_def, decide_eq_true_eq]

/-- The counter of an account, and the clock. -/
def LocalWorld.lockout (userId : String) (w : LocalWorld) : Lockout Instant × Instant :=
  (((w.db.credentials.get? userId).map LocalCredential.lockout).getD Lockout.clear, w.clock)

/-- The passwords for an account, among all events. -/
def LocalEvent.mark (userId : String) : LocalEvent → Option (Lockout.Mark Instant)
  | .failed id t => if id = userId then some (.failed t) else none
  | .passed id t => if id = userId then some (.passed t) else none
  | _ => none

/-- The wrong passwords for an account in the window from `a` on. -/
def wrongPasswords (userId : String) (a : Instant) (es : List LocalEvent) : ℕ :=
  es.countP fun
    | .failed id t => id = userId ∧ a ≤ t ∧ t < a + failureWindow
    | _ => false

theorem wrongPasswords_eq (userId : String) (a : Instant) (es : List LocalEvent) :
    wrongPasswords userId a es =
      Lockout.failuresFrom a failureWindow (es.filterMap (LocalEvent.mark userId)) := by
  rw [Lockout.failuresFrom, List.countP_filterMap]
  refine List.countP_congr fun e _ => ?_
  cases e with
  | failed id t => by_cases hid : id = userId <;> simp [LocalEvent.mark, hid]
  | passed id t => by_cases hid : id = userId <;> simp [LocalEvent.mark, hid]
  | presented | accepted | closed | changed | issued => simp [LocalEvent.mark]

theorem lockout_putCredential {db : LocalDb} {c c' : LocalCredential} {t : Instant}
    (hc : db.credentials.get? c.userId = some c) (hid : c'.userId = c.userId) (userId : String) :
    LocalWorld.lockout userId ⟨db.putCredential c', t⟩ =
      if c.userId = userId then (c'.lockout, t) else LocalWorld.lockout userId ⟨db, t⟩ := by
  have hget : db.credentials.get? (Keyed.key c') = some c := by
    rw [show Keyed.key c' = c.userId from hid]
    exact hc
  simp only [LocalWorld.lockout, LocalDb.putCredential, Table.get?_put hget,
    show Keyed.key c' = c.userId from hid]
  split <;> rfl

variable [Unicode] {env : LocalEnv} {hasher : Hasher}

/-- Every change steps the counter of every account. -/
theorem LocalChange.lockout {w w' : LocalWorld} {es : List LocalEvent}
    (h : LocalChange env w es w') (userId : String) :
    Run (Lockout.Step 5 failureWindow) (w.lockout userId) (es.filterMap (LocalEvent.mark userId))
      (w'.lockout userId) := by
  cases h with
  | wait hle => exact .single (.wait hle)
  | refused | closed | changed | issued => exact .refl _
  | @accepted db t _ session =>
    have hseen : (db.seen session t).credentials = db.credentials := by
      rw [LocalDb.seen]
      split <;> rfl
    simp only [LocalWorld.lockout, hseen]
    exact .refl _
  | @failed db t c hc hopen =>
    have hid : (c.fail t).userId = c.userId := rfl
    rw [lockout_putCredential hc hid]
    by_cases hid : c.userId = userId
    · subst hid
      have hclosed : ¬ c.lockout.Barred t := by
        rw [barred_iff, hopen]
        exact Bool.false_ne_true
      simp only [LocalWorld.lockout, hc, Option.map_some, Option.getD_some, LocalEvent.mark,
        List.filterMap_cons, List.filterMap_nil, if_true, lockout_fail]
      exact .single (.fail le_rfl hclosed)
    · simp only [LocalEvent.mark, hid, List.filterMap_cons, List.filterMap_nil, if_false]
      exact .refl _
  | @passed db t c c' hc hopen hc' =>
    have hid' : c'.userId = c.userId := by rw [hc']
    have hclear : c'.lockout = Lockout.clear := by
      rw [hc']
      rfl
    rw [lockout_putCredential hc hid', hclear]
    by_cases hid : c.userId = userId
    · subst hid
      have hclosed : ¬ c.lockout.Barred t := by
        rw [barred_iff, hopen]
        exact Bool.false_ne_true
      simp only [LocalWorld.lockout, hc, Option.map_some, Option.getD_some, LocalEvent.mark,
        List.filterMap_cons, List.filterMap_nil, if_true]
      exact .single (.pass le_rfl hclosed)
    · simp only [LocalEvent.mark, hid, List.filterMap_cons, List.filterMap_nil, if_false]
      exact .refl _

/-! ## Attempts -/

theorem verifyLogin_of_locked {db : LocalDb} {username : Text} {c : LocalCredential}
    {t u : Instant} (hc : db.credentialOf username = some c) (hu : c.lockedUntil = some u)
    (htu : t < u) (password salt : Text) :
    verifyLogin hasher db username password salt t = .blocked := by
  have hblocked : c.blocked t = true := by
    rw [LocalCredential.blocked, hu, Option.any_some]
    exact decide_eq_true htu
  simp only [verifyLogin, hc, hblocked, if_true]

theorem login_of_blocked {db : LocalDb} {request : LocalRequest}
    {username password salt raw : Text} {t issuedAt : Instant}
    (h : verifyLogin hasher db username password salt t = .blocked) :
    ∃ e, login env hasher db request username password salt raw t issuedAt = (.error e, db) := by
  rw [login]
  cases checkTransport env request true with
  | error e => exact ⟨e, rfl⟩
  | ok _ =>
    simp only [h]
    exact ⟨signInFailed, rfl⟩

/-- A locked credential refuses every attempt and stays as it is. However the calls are timed,
no window without a sign-in lets more than five wrong passwords of an account through. -/
theorem guessing_bounded (env : LocalEnv) (hasher : Hasher) :
    (∀ db username c t u, db.credentialOf username = some c → c.lockedUntil = some u → t < u →
      ∀ password salt,
        verifyLogin hasher db username password salt t = .blocked ∧
        ∀ request raw issuedAt, ∃ e,
          login env hasher db request username password salt raw t issuedAt = (.error e, db)) ∧
    ∀ w w' es, Run (LocalStep env hasher) w es w' → ∀ userId a,
      (∀ t, .passed userId t ∈ es → ¬ (a ≤ t ∧ t < a + failureWindow)) →
        wrongPasswords userId a es ≤ 5 := by
  refine ⟨fun db username c t u hc hu htu password salt => ?_, fun w w' es h userId a hes => ?_⟩
  · have hblocked : verifyLogin hasher db username password salt t = .blocked :=
      verifyLogin_of_locked hc hu htu password salt
    exact ⟨hblocked, fun request raw issuedAt => login_of_blocked hblocked⟩
  · have hrun := (changes_of_run h).simulate (LocalWorld.lockout userId) (LocalEvent.mark userId)
      fun hstep => hstep.lockout userId
    rw [wrongPasswords_eq]
    refine Lockout.failures_le (by decide) hrun fun t ht => ?_
    obtain ⟨e, he, hmark⟩ := List.mem_filterMap.mp ht
    cases e with
    | passed id u =>
      obtain ⟨rfl, hu⟩ := Option.ite_none_right_eq_some.mp hmark
      cases hu
      exact hes t he
    | failed id u =>
      obtain ⟨-, hu⟩ := Option.ite_none_right_eq_some.mp hmark
      cases hu
    | presented | accepted | closed | changed | issued => cases hmark

end VardrMap.LocalAuth
