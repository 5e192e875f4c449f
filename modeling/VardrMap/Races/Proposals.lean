import VardrMap.Operations
import VardrMap.Lib.Clients

/-!
# Several calls on one proposal

Calls that approve or reject one proposal, statement by statement. An approval takes the
lock of the engagement, reads the proposal again under it, and commits the change together
with the status. A rejection takes no lock: it reads the proposal once, and writes the
status by identifier, whatever has been stored since. A call is overtaken when another one
resolves the proposal between its reading and its write.
-/
namespace VardrMap
open Lib

namespace Resolving

/-- The stored database, and the call that holds the lock of the engagement. -/
structure Shared where
  db : Db
  holder : Option ℕ
  deriving DecidableEq

/-- How far a call is, with what it has read. -/
inductive Phase where
  | idle
  | approving (user : User) (engagement : Engagement)
  | locked (user : User) (engagement : Engagement)
  | checked (user : User) (engagement : Engagement) (proposal : AgentProposal) (overtaken : Bool)
  | rejecting (user : User) (proposal : AgentProposal) (overtaken : Bool)
  | ended

/-- The statements of the calls: those of an approval up to `lock`, the lock, the refreshed
proposal and its check, the change with the commit; and the two halves of a rejection. -/
inductive Statement where
  | approve (request : HttpRequest)
  | lock
  | refresh
  | apply (clocks : Clocks) (newId : String)
  | reject (request : HttpRequest)
  | write (clocks : Clocks)

abbrev Calls := Clients Shared Phase

/-- Another call has resolved the proposal since this one read it. -/
def Phase.overtaken : Phase → Bool
  | checked _ _ _ o | rejecting _ _ o => o
  | _ => false

/-- An approval is committed: rejections are overtaken, and nobody else has the lock. -/
def Phase.afterApproval : Phase → Phase
  | rejecting user proposal _ => rejecting user proposal true
  | x => x

/-- A rejection is committed: it overtakes approvals under the lock as well. -/
def Phase.afterRejection : Phase → Phase
  | checked user engagement proposal _ => checked user engagement proposal true
  | rejecting user proposal _ => rejecting user proposal true
  | x => x

/-- The call ends and drops what it has not committed. -/
def fail (w : Calls) (c : ℕ) : Calls := w.enter c .ended

/-- The call that holds the lock ends. -/
def failLocked (w : Calls) (c : ℕ) : Calls := w.commit c { w.shared with holder := none } .ended id

/-- The lock of the engagement, and its row as it is stored then. -/
def lock (w : Calls) (c : ℕ) (user : User) (engagement : Engagement) : Option Calls :=
  if w.shared.holder.isSome then none
  else match w.shared.db.engagements.get? engagement.id with
    | some e => some (w.commit c { w.shared with holder := some c } (.locked user e) id)
    | none => some (fail w c)

/-- `db.refresh(proposal)` and the check of its status. -/
def refresh (proposalId : String) (w : Calls) (c : ℕ) (user : User) (engagement : Engagement) :
    Calls :=
  match w.shared.db.proposals.get? proposalId with
  | some proposal =>
    if proposal.status == .pending then w.enter c (.checked user engagement proposal false)
    else failLocked w c
  | none => failLocked w c

/-- The rejection's status, written to the row that is stored now. -/
def write (proposalId : String) (w : Calls) (c : ℕ) (clocks : Clocks) (user : User) : Calls :=
  match w.shared.db.proposals.get? proposalId with
  | some row =>
    let rejected := row.resolve .rejected row.appliedResourceId (clocks.wall 0).instant user
    w.commit c { w.shared with db := w.shared.db.putProposal rejected } .ended Phase.afterRejection
  | none => fail w c

variable [Unicode]

/-- The checks of an approval before its lock. -/
def approve (p : Platform) (programId proposalId : String) (w : Calls) (c : ℕ)
    (request : HttpRequest) : Calls :=
  match resolvableProposal p request programId proposalId w.shared.db with
  | .ok (user, engagement, _) => w.enter c (.approving user engagement)
  | .error _ => fail w c

/-- `_apply`, the status and the commit, which releases the lock. -/
def apply (p : Platform) (proposalId : String) (w : Calls) (c : ℕ) (clocks : Clocks)
    (newId : String) (user : User) (engagement : Engagement) (proposal : AgentProposal) : Calls :=
  match applyProposal p w.shared.db engagement newId proposal.change with
  | .ok (db, applied) =>
    match db.proposals.get? proposalId with
    | some row =>
      let approved := row.resolve .approved applied (clocks.wall 0).instant user
      w.commit c ⟨db.putProposal approved, none⟩ .ended Phase.afterApproval
    | none => failLocked w c
  | .error _ => failLocked w c

/-- The checks of a rejection. -/
def reject (p : Platform) (programId proposalId : String) (w : Calls) (c : ℕ)
    (request : HttpRequest) : Calls :=
  match resolvableProposal p request programId proposalId w.shared.db with
  | .ok (user, _, proposal) =>
    if proposal.status == .pending then w.enter c (.rejecting user proposal false) else fail w c
  | .error _ => fail w c

/-- One statement of one call. -/
def next (p : Platform) (programId proposalId : String) (w : Calls) :
    ℕ × Statement → Option Calls
  | (c, s) =>
    match w.phase c, s with
    | .idle, .approve request => some (approve p programId proposalId w c request)
    | .approving user engagement, .lock => lock w c user engagement
    | .locked user engagement, .refresh => some (refresh proposalId w c user engagement)
    | .checked user engagement proposal _, .apply clocks newId =>
      some (apply p proposalId w c clocks newId user engagement proposal)
    | .idle, .reject request => some (reject p programId proposalId w c request)
    | .rejecting user _ _, .write clocks => some (write proposalId w c clocks user)
    | _, _ => none

omit [Unicode] in
/-- The statement does not come from an overtaken call. -/
def Undisturbed (w : Calls) (a : ℕ × Statement) : Prop := (w.phase a.1).overtaken = false

omit [Unicode] in
instance (w : Calls) (a : ℕ × Statement) : Decidable (Undisturbed w a) :=
  inferInstanceAs (Decidable (_ = _))

/-! ## One resolution -/

/-- The database after one call by itself has resolved the proposal. -/
inductive Resolved (p : Platform) (programId proposalId : String) (db : Db) : Db → Prop
  | approved (clocks : Clocks) (request : HttpRequest) (newId : String) {db' : Db}
      (h : approveProposal p clocks request programId proposalId newId db = .ok (db', .stored)) :
      Resolved p programId proposalId db db'
  | rejected (clocks : Clocks) (request : HttpRequest) {db' : Db}
      (h : rejectProposal p clocks request programId proposalId db = .ok (db', .stored)) :
      Resolved p programId proposalId db db'

theorem Resolved.stored {p : Platform} {programId proposalId : String} {db db' : Db}
    (h : Resolved p programId proposalId db db') :
    ∃ c c', db.proposals.get? proposalId = some c ∧ c.status = .pending ∧
      db'.proposals.get? proposalId = some c' ∧ c'.status ≠ .pending := by
  cases h with
  | approved _ _ _ h =>
    obtain ⟨user, e, c, db₁, applied, -, hc, hpending, hdb₁, rfl⟩ := approveProposal_eq_ok h
    exact ⟨c, _, hc, hpending, get?_putProposal (applyProposal_proposals hdb₁ ▸ hc), nofun⟩
  | rejected _ _ h =>
    obtain ⟨user, c, hc, hpending, rfl⟩ := rejectProposal_eq_ok h
    exact ⟨c, _, hc, hpending, get?_putProposal hc, nofun⟩

/-! ## The calls before and after a resolution -/

/-- What a call has read is what is stored, while nothing is resolved. -/
def Phase.Fresh (p : Platform) (programId proposalId : String) (shared : Shared) (c : ℕ) :
    Phase → Prop
  | idle | ended => True
  | approving user e => Enters user e
  | locked user e => shared.holder = some c ∧ ∃ e₀, Enters user e₀ ∧
      shared.db.engagements.get? e₀.id = some e
  | checked user e proposal _ => shared.holder = some c ∧
      (∃ e₀, Enters user e₀ ∧ shared.db.engagements.get? e₀.id = some e) ∧
      shared.db.proposals.get? proposalId = some proposal ∧ proposal.status = .pending
  | rejecting user proposal _ => proposal.status = .pending ∧ ∃ request e,
      resolvableProposal p request programId proposalId shared.db = .ok (user, e, proposal)
where
  /-- The checks before the lock let the user through. -/
  Enters (user : User) (e : Engagement) : Prop := ∃ request proposal,
    resolvableProposal p request programId proposalId shared.db = .ok (user, e, proposal)

omit [Unicode] in
/-- After a resolution, whoever has read the pending proposal is overtaken. -/
def Phase.Late : Phase → Prop
  | checked _ _ _ o | rejecting _ _ o => o = true
  | _ => True

/-- Either nothing is resolved, or one call has resolved the proposal and all others are late. -/
inductive Once (p : Platform) (programId proposalId : String) (db : Db) (w : Calls) : Prop
  | unresolved (stored : w.shared.db = db)
      (fresh : ∀ c, (w.phase c).Fresh p programId proposalId w.shared c)
  | resolved (resolved : Resolved p programId proposalId db w.shared.db)
      (late : ∀ c, (w.phase c).Late)

variable {p : Platform} {programId proposalId : String} {db : Db} {w w' : Calls}

/-- A call that enters a phase leaves the others alone. -/
theorem Once.enter {c : ℕ} {x : Phase} (h : Once p programId proposalId db w)
    (hfresh : w.shared.db = db → x.Fresh p programId proposalId w.shared c)
    (hlate : Resolved p programId proposalId db w.shared.db → x.Late) :
    Once p programId proposalId db (w.enter c x) := by
  cases h with
  | unresolved hdb h => exact .unresolved hdb (Clients.forall_enter (hfresh hdb) h)
  | resolved hdb h => exact .resolved hdb (Clients.forall_enter (p := fun _ => Phase.Late)
      (hlate hdb) h)

theorem Once.fail {c : ℕ} (h : Once p programId proposalId db w) :
    Once p programId proposalId db (fail w c) := h.enter (fun _ => trivial) fun _ => trivial

/-- The lock passes from nobody to one call, or back. -/
theorem Phase.Fresh.relock {shared : Shared} {holder : Option ℕ} {d : ℕ} {x : Phase}
    (h : x.Fresh p programId proposalId shared d) (hd : shared.holder ≠ some d) :
    x.Fresh p programId proposalId { shared with holder } d := by
  cases x with
  | locked => exact absurd h.1 hd
  | checked => exact absurd h.1 hd
  | _ => exact h

theorem Once.failLocked {c : ℕ} (h : Once p programId proposalId db w)
    (hc : w.shared.db = db → w.shared.holder = some c) :
    Once p programId proposalId db (failLocked w c) := by
  cases h with
  | unresolved hdb h =>
    refine .unresolved hdb (Clients.forall_commit trivial fun d hd => (h d).relock ?_)
    rw [hc hdb]
    exact fun heq => hd (Option.some.inj heq).symm
  | resolved hdb h =>
    exact .resolved hdb (Clients.forall_commit (p := fun _ => Phase.Late) trivial fun d _ => h d)

theorem Once.approve {c : ℕ} {request : HttpRequest} (h : Once p programId proposalId db w) :
    Once p programId proposalId db (approve p programId proposalId w c request) := by
  unfold Resolving.approve
  split
  · rename_i user e proposal hread
    exact h.enter (fun _ => ⟨request, proposal, hread⟩) fun _ => trivial
  · exact h.fail

theorem Once.lock {c : ℕ} {user : User} {e : Engagement} (h : Once p programId proposalId db w)
    (hc : w.phase c = .approving user e) (hnext : lock w c user e = some w') :
    Once p programId proposalId db w' := by
  unfold Resolving.lock at hnext
  split at hnext
  · simp at hnext
  rename_i hholder
  split at hnext
  · rename_i e' he
    obtain rfl := Option.some.inj hnext
    cases h with
    | unresolved hdb h =>
      have hentered : (w.phase c).Fresh p programId proposalId w.shared c := h c
      rw [hc] at hentered
      refine .unresolved hdb (Clients.forall_commit ⟨rfl, e, hentered, he⟩ fun d _ =>
        (h d).relock fun heq => hholder ?_)
      rw [heq]
      rfl
    | resolved hdb h =>
      exact .resolved hdb (Clients.forall_commit (p := fun _ => Phase.Late) trivial fun d _ => h d)
  · exact Option.some.inj hnext ▸ h.fail

theorem Once.refresh {c : ℕ} {user : User} {e : Engagement} (h : Once p programId proposalId db w)
    (hc : w.phase c = .locked user e) :
    Once p programId proposalId db (refresh proposalId w c user e) := by
  have hlocked : w.shared.db = db → (Phase.locked user e).Fresh p programId proposalId w.shared c := by
    intro hdb
    cases h with
    | unresolved _ h => exact hc ▸ h c
    | resolved hres _ =>
      obtain ⟨c₀, c₁, hc₀, hpending, hc₁, hresolved⟩ := hres.stored
      rw [hdb] at hc₁
      exact absurd (Option.some.inj (hc₀.symm.trans hc₁) ▸ hpending) hresolved
  unfold Resolving.refresh
  split
  · rename_i proposal hget
    split
    · rename_i hpending
      refine h.enter (fun hdb => ?_) fun hres => ?_
      · exact ⟨(hlocked hdb).1, (hlocked hdb).2, hget, by simpa using hpending⟩
      · obtain ⟨c₀, c₁, -, -, hc₁, hresolved⟩ := hres.stored
        obtain rfl := Option.some.inj (hget.symm.trans hc₁)
        simp [hresolved] at hpending
    · exact h.failLocked fun hdb => (hlocked hdb).1
  · exact h.failLocked fun hdb => (hlocked hdb).1

theorem Once.reject {c : ℕ} {request : HttpRequest} (h : Once p programId proposalId db w) :
    Once p programId proposalId db (reject p programId proposalId w c request) := by
  unfold Resolving.reject
  split
  · rename_i user e proposal hread
    split
    · rename_i hpending
      refine h.enter (fun _ => ⟨by simpa using hpending, request, e, hread⟩) fun hres => ?_
      obtain ⟨c₀, c₁, -, -, hc₁, hresolved⟩ := hres.stored
      obtain rfl := Option.some.inj ((resolvableProposal_eq_ok hread).2.symm.trans hc₁)
      simp [hresolved] at hpending
    · exact h.fail
  · exact h.fail

/-- An approval that was not overtaken does what it does by itself. -/
theorem Once.apply {c : ℕ} {clocks : Clocks} {newId : String} {user : User} {e : Engagement}
    {proposal : AgentProposal} (h : Once p programId proposalId db w)
    (hc : w.phase c = .checked user e proposal false) :
    Once p programId proposalId db (apply p proposalId w c clocks newId user e proposal) := by
  cases h with
  | resolved _ h =>
    have hlate := h c
    rw [hc] at hlate
    simp [Phase.Late] at hlate
  | unresolved hdb h =>
    have hchecked := h c
    rw [hc] at hchecked
    obtain ⟨hholder, ⟨e₀, ⟨request, c₀, henters⟩, he⟩, hproposal, hpending⟩ := hchecked
    have hfail := Once.failLocked (p := p) (.unresolved hdb h) fun _ => hholder
    unfold Resolving.apply
    split
    · rename_i db₁ applied hdb₁
      split
      · rename_i row hrow
        rw [applyProposal_proposals hdb₁] at hrow
        obtain rfl := Option.some.inj (hproposal.symm.trans hrow)
        refine .resolved ?_ (Clients.forall_commit (p := fun _ => Phase.Late) trivial fun d hd => ?_)
        · refine .approved clocks request newId ?_
          rw [hdb] at henters he hproposal hdb₁
          simp [approveProposal, henters, he, hproposal, hdb₁, found, AgentProposal.requirePending,
            hpending, ensure, bind, Except.bind, pure, Except.pure]
        · have hfresh := h d
          cases hx : w.phase d with
          | checked =>
            rw [hx] at hfresh
            exact absurd (Option.some.inj (hfresh.1.symm.trans hholder)) hd
          | rejecting => rfl
          | _ => trivial
      · exact hfail
    · exact hfail

/-- A rejection that was not overtaken does what it does by itself. -/
theorem Once.write {c : ℕ} {clocks : Clocks} {user : User} {proposal : AgentProposal}
    (h : Once p programId proposalId db w) (hc : w.phase c = .rejecting user proposal false) :
    Once p programId proposalId db (write proposalId w c clocks user) := by
  cases h with
  | resolved _ h =>
    have hlate := h c
    rw [hc] at hlate
    simp [Phase.Late] at hlate
  | unresolved hdb h =>
    have hrejecting := h c
    rw [hc] at hrejecting
    obtain ⟨hpending, request, e, hread⟩ := hrejecting
    have hproposal := (resolvableProposal_eq_ok hread).2
    unfold Resolving.write
    rw [hproposal]
    refine .resolved ?_ (Clients.forall_commit (p := fun _ => Phase.Late) trivial fun d hd => ?_)
    · refine .rejected clocks request ?_
      rw [hdb] at hread ⊢
      simp [rejectProposal, hread, AgentProposal.requirePending, hpending, ensure, bind,
        Except.bind, pure, Except.pure]
    · cases w.phase d with
      | checked => rfl
      | rejecting => rfl
      | _ => trivial

theorem Once.step {a : ℕ × Statement} (h : Once p programId proposalId db w)
    (hnext : next p programId proposalId w a = some w') (ha : Undisturbed w a) :
    Once p programId proposalId db w' := by
  obtain ⟨c, s⟩ := a
  unfold next at hnext
  dsimp only at hnext
  split at hnext
  · exact Option.some.inj hnext ▸ h.approve
  · exact h.lock ‹_› hnext
  · exact Option.some.inj hnext ▸ h.refresh ‹_›
  · rename_i o clocks newId hc
    obtain rfl : o = false := by simpa [Undisturbed, hc, Phase.overtaken] using ha
    exact Option.some.inj hnext ▸ h.apply hc
  · exact Option.some.inj hnext ▸ h.reject
  · rename_i o clocks hc
    obtain rfl : o = false := by simpa [Undisturbed, hc, Phase.overtaken] using ha
    exact Option.some.inj hnext ▸ h.write hc
  · simp at hnext

/-- Every call begins before its first statement. -/
def start (db : Db) : Calls := .start ⟨db, none⟩ .idle

omit [Unicode] in
theorem start_once [Unicode] : Once p programId proposalId db (start db) :=
  .unresolved rfl fun _ => trivial

/-- An interleaving of the calls in which no statement comes from an overtaken one. -/
abbrev Interleaving (p : Platform) (programId proposalId : String) :=
  Lib.Run (Taken (next p programId proposalId) Undisturbed)

theorem Interleaving.once {actions : List (ℕ × Statement)}
    (h : Interleaving p programId proposalId (start db) actions w) :
    Once p programId proposalId db w :=
  h.invariant (Once p programId proposalId db)
    (fun hw hs => by cases hs with | step hnext ha => exact hw.step hnext ha) start_once

/-- What the stored database says of a proposal that calls resolve: its change is applied
with the approval and only then, and whoever resolved it has resolved it for good. -/
structure ResolvedOnce (p : Platform) (proposalId : String) (before : AgentProposal)
    (db after : Db) : Prop where
  stored : ∃ c, after.proposals.get? proposalId = some c
  pending : ∀ c ∈ after.proposals.get? proposalId, c.status = .pending → after = db
  settled : before.status ≠ .pending → after = db
  rejected : before.status = .pending → ∀ c ∈ after.proposals.get? proposalId,
    c.status = .rejected → after = db.putProposal c
  approved : before.status = .pending → ∀ c ∈ after.proposals.get? proposalId,
    c.status = .approved → ∃ e newId db₁ applied, db.engagements.get? e.id = some e ∧
      applyProposal p db e newId before.change = .ok (db₁, applied) ∧ after = db₁.putProposal c

theorem Resolved.once {before : AgentProposal} {after : Db}
    (hbefore : db.proposals.get? proposalId = some before)
    (h : Resolved p programId proposalId db after) :
    ResolvedOnce p proposalId before db after := by
  cases h with
  | approved clocks _ newId h =>
    obtain ⟨user, e, c, db₁, applied, he, hc, hpending, hdb₁, rfl⟩ := approveProposal_eq_ok h
    obtain rfl := Option.some.inj (hbefore.symm.trans hc)
    have hstored := @get?_putProposal db₁ proposalId applied before .approved
      (clocks.wall 0).instant user (applyProposal_proposals hdb₁ ▸ hc)
    obtain rfl : e.id = programId := Table.key_of_get? he
    refine ⟨⟨_, hstored⟩, fun c hc' hs => ?_, fun hs => absurd hpending hs, fun _ c hc' hs => ?_,
      fun _ c hc' _ => ?_⟩ <;> obtain rfl := Option.some.inj (hstored.symm.trans hc')
    · cases hs
    · cases hs
    · exact ⟨e, newId, db₁, applied, he, hdb₁, rfl⟩
  | rejected clocks _ h =>
    obtain ⟨user, c, hc, hpending, rfl⟩ := rejectProposal_eq_ok h
    obtain rfl := Option.some.inj (hbefore.symm.trans hc)
    have hstored := @get?_putProposal db proposalId before.appliedResourceId before .rejected
      (clocks.wall 0).instant user hc
    refine ⟨⟨_, hstored⟩, fun c hc' hs => ?_, fun hs => absurd hpending hs, fun _ c hc' hs => ?_,
      fun _ c hc' hs => ?_⟩ <;> obtain rfl := Option.some.inj (hstored.symm.trans hc')
    · cases hs
    · rfl
    · cases hs

/-- Once the stored proposal is resolved, every call that has read it is late. -/
theorem Once.late {c : AgentProposal} (h : Once p programId proposalId db w)
    (hc : w.shared.db.proposals.get? proposalId = some c) (hresolved : c.status ≠ .pending)
    (d : ℕ) : (w.phase d).Late := by
  cases h with
  | resolved _ h => exact h d
  | unresolved _ h =>
    have hfresh := h d
    cases hx : w.phase d with
    | checked =>
      rw [hx] at hfresh
      obtain ⟨-, -, hget, hpending⟩ := hfresh
      exact absurd (Option.some.inj (hget.symm.trans hc) ▸ hpending) hresolved
    | rejecting =>
      rw [hx] at hfresh
      obtain ⟨hpending, request, e, hread⟩ := hfresh
      have hget := (resolvableProposal_eq_ok hread).2
      exact absurd (Option.some.inj (hget.symm.trans hc) ▸ hpending) hresolved
    | _ => trivial

/-- A late call stores nothing. -/
theorem next_late {a : ℕ × Statement} (hnext : next p programId proposalId w a = some w')
    (ha : Undisturbed w a) (hlate : (w.phase a.1).Late) : w'.shared.db = w.shared.db := by
  obtain ⟨c, s⟩ := a
  unfold next at hnext
  dsimp only at hnext hlate
  split at hnext
  · obtain rfl := Option.some.inj hnext
    unfold Resolving.approve
    split <;> rfl
  · unfold Resolving.lock at hnext
    split at hnext
    · simp at hnext
    · split at hnext <;> obtain rfl := Option.some.inj hnext <;> rfl
  · obtain rfl := Option.some.inj hnext
    unfold Resolving.refresh
    split
    · split <;> rfl
    · rfl
  · rename_i hc
    simp_all [Undisturbed, Phase.overtaken, Phase.Late]
  · obtain rfl := Option.some.inj hnext
    unfold Resolving.reject
    split
    · split <;> rfl
    · rfl
  · rename_i hc
    simp_all [Undisturbed, Phase.overtaken, Phase.Late]
  · simp at hnext

/-- When no call writes over a resolution that another one stored since it read the proposal,
the proposal is resolved once: it leaves its pending status once and for all, a rejection
leaves everything else as it was, and an approval has applied the change exactly once. -/
theorem resolved_once {before : AgentProposal} {actions : List (ℕ × Statement)}
    (hbefore : db.proposals.get? proposalId = some before)
    (h : Interleaving p programId proposalId (start db) actions w) :
    ResolvedOnce p proposalId before db w.shared.db ∧
      ∀ c ∈ w.shared.db.proposals.get? proposalId, c.status ≠ .pending →
        ∀ later w', Interleaving p programId proposalId w later w' →
          w'.shared.db = w.shared.db := by
  have honce := Interleaving.once h
  refine ⟨?_, fun c hc hresolved later w' h' => ?_⟩
  · cases honce with
    | unresolved hdb _ =>
      rw [hdb]
      refine ⟨⟨before, hbefore⟩, fun _ _ _ => rfl, fun _ => rfl, fun hpending c hc hs => ?_,
        fun hpending c hc hs => ?_⟩
      all_goals
        obtain rfl := Option.some.inj (hbefore.symm.trans hc)
        rw [hpending] at hs
        cases hs
    | resolved hres _ => exact hres.once hbefore
  · let inv (x : Calls) : Prop := Once p programId proposalId db x ∧ x.shared.db = w.shared.db
    have hinv : inv w' := by
      refine h'.invariant inv (fun {x y _} (hx : inv x) hs => ?_) ⟨honce, rfl⟩
      cases hs with
      | step hnext ha =>
        have hlate := hx.1.late (hx.2 ▸ hc) hresolved
        exact ⟨hx.1.step hnext ha, (next_late hnext ha (hlate _)).trans hx.2⟩
    exact hinv.2

omit [Unicode] in
/-- The example with a proposal to widen the scope. -/
def exampleProposed : Db :=
  { exampleApproved with proposals := .single {
      id := "p1", programId := "e1", change := .scope "in" "other.example.com" (some "domain")
      status := .pending, appliedResourceId := "", resolvedAt := none, resolvedBy := "" } }

omit [Unicode] in
theorem resolved_once_example : ∃ w : Calls,
    @ResolvedOnce Unicode.ascii examplePlatform "p1"
      ⟨"p1", "e1", .scope "in" "other.example.com" (some "domain"), .pending, "", none, ""⟩
      exampleProposed w.shared.db ∧
    (w.shared.db.proposals.get? "p1").map AgentProposal.status = some .approved := by
  let _ := Unicode.ascii
  let actions : List (ℕ × Statement) := [(0, .reject ⟨none, some "owner"⟩),
    (1, .approve ⟨none, some "owner"⟩), (1, .lock), (1, .refresh), (1, .apply exampleClocks "s2")]
  let w := (actions.foldlM (fun s a => if Undisturbed s a then
    next examplePlatform "e1" "p1" s a else none) (start exampleProposed)).getD
      (start exampleProposed)
  have h : Interleaving examplePlatform "e1" "p1" (start exampleProposed) actions w :=
    Lib.Run.of_foldlM rfl
  exact ⟨w, (resolved_once rfl h).1, by decide +kernel⟩

omit [Unicode] in
/-- A rejection that has read the pending proposal overwrites an approval: the status says
rejected, and the change is applied. -/
theorem rejected_and_applied : ∃ actions w,
    Lib.Run (Taken (@next Unicode.ascii examplePlatform "e1" "p1") fun _ _ => True)
      (start exampleProposed) actions w ∧
    (w.shared.db.proposals.get? "p1").map AgentProposal.status = some .rejected ∧
    exampleProposed.scopeItems.get? "s2" = none ∧
    (w.shared.db.scopeItems.get? "s2").map ScopeItem.value = some "other.example.com" := by
  let _ := Unicode.ascii
  let actions : List (ℕ × Statement) := [(0, .reject ⟨none, some "owner"⟩),
    (1, .approve ⟨none, some "owner"⟩), (1, .lock), (1, .refresh), (1, .apply exampleClocks "s2"),
    (0, .write exampleClocks)]
  let w := (actions.foldlM (fun s a => if True then next examplePlatform "e1" "p1" s a else none)
    (start exampleProposed)).getD (start exampleProposed)
  exact ⟨actions, w, Lib.Run.of_foldlM rfl, by decide +kernel, by decide, by decide +kernel⟩

end Resolving
end VardrMap
