import VardrMap.Deliverables.Revisions
import VardrMap.EvidenceRecords

/-!
# Digests of reported evidence

A report prints a digest with each piece of evidence. It is the digest of the stored text,
while the report shows this text after another redaction. The two belong together when there
was nothing left to redact.
-/
namespace VardrMap.Deliverables
open Lib Parsers

variable [Unicode] [WordTable]

/-! ## A digest is not redacted -/

omit [WordTable] in
theorem isCue_hexDigit (n : ℕ) : isCue (Json.hexDigit (n % 16)) = false := by
  have hall : ∀ k < 16, isAscii (Json.hexDigit k) = true ∧ among ":=." (Json.hexDigit k) = false ∧
      asciiSpace (Json.hexDigit k) = false := by decide
  obtain ⟨hascii, hmark, hspace⟩ := hall (n % 16) (Nat.mod_lt n (by decide))
  rw [isCue, hmark, Unicode.isSpace_ascii _ hascii, hspace]
  rfl

omit [WordTable] in
theorem isCue_hex {width n : ℕ} {c : Char} (h : c ∈ Json.hex width n) : isCue c = false := by
  induction width generalizing n with
  | zero => cases h
  | succ width ih =>
    rcases List.mem_append.mp h with h | h
    · exact ih h
    · rw [List.mem_singleton.mp h]
      exact isCue_hexDigit n

theorem redact_ofText (l : Text) : redact (Sha256.ofText l) = Sha256.ofText l := by
  have hself : redactText (Sha256.hexdigest (Sha256.utf8 l)) =
      Sha256.hexdigest (Sha256.utf8 l) := by
    refine redactText_eq_self fun c hc => ?_
    obtain ⟨n, -, hc⟩ := List.mem_flatMap.mp hc
    exact isCue_hex hc
  rw [redact, Sha256.ofText, String.toList_ofList, hself]

/-! ## Evidence in a snapshot -/

omit [Unicode] [WordTable] in
theorem lookup_cleanTreeFields [Unicode] [WordTable] (k : String) (fs : List (String × Json)) :
    (cleanTreeFields fs).lookup k = (fs.lookup k).map cleanTree := by
  induction fs with
  | nil => rfl
  | cons f fs ih =>
    rw [cleanTreeFields, List.lookup_cons, List.lookup_cons, ih]
    split <;> rfl

/-- Cleaning a document cleans its fields. -/
theorem field_cleanTree (k : String) (fs : List (String × Json)) :
    (cleanTree (.obj fs)).field k = cleanTree ((Json.obj fs).field k) := by
  rw [cleanTree, Json.field, Json.field, lookup_cleanTreeFields]
  cases fs.lookup k with
  | none => rfl
  | some j => rfl

theorem cleanTreeList_eq_map (xs : List Json) : cleanTreeList xs = xs.map cleanTree := by
  induction xs with
  | nil => rfl
  | cons x xs ih => rw [cleanTreeList, ih, List.map_cons]

/-- The evidence of a snapshot is cleaned evidence of the view. -/
theorem snapshot_evidence {engagement : Engagement} {profile : EngagementProfile}
    {body : ReportContent} {revision : ℕ} {now : DateTime} {view : Record} {s entry : Json}
    (h : snapshot engagement profile body revision now view = .ok s)
    (hentry : entry ∈ listAt s "evidence") :
    ∃ e ∈ view.evidence.rows, entry = cleanTree (serializeEvidence e) := by
  obtain ⟨-, -, h⟩ := bind_eq_ok h
  obtain ⟨findings, -, h⟩ := bind_eq_ok h
  obtain ⟨evidence, hevidence, h⟩ := bind_eq_ok h
  obtain ⟨-, -, h⟩ := bind_eq_ok h
  obtain rfl := Except.ok.inj h
  rw [listAt, field_cleanTree] at hentry
  have hlist : entry ∈ cleanTreeList (evidence.map serializeEvidence) := hentry
  rw [cleanTreeList_eq_map, List.map_map] at hlist
  obtain ⟨e, he, rfl⟩ := List.mem_map.mp hlist
  obtain ⟨-, -, hevidence⟩ := bind_eq_ok hevidence
  obtain ⟨-, -, hevidence⟩ := bind_eq_ok hevidence
  obtain rfl := Except.ok.inj hevidence
  exact ⟨e, (List.mem_filter.mp (mem_sortBy.mp he)).1, rfl⟩

omit [Unicode] [WordTable] in
/-- The digest that is printed is the one of the text that is shown. -/
def hashes (entry : Json) : Bool :=
  match entry.field "body", entry.field "content_hash" with
  | .str body, .str hash => hash == Sha256.ofText body.toList
  | _, _ => false

omit [Unicode] [WordTable] in
/-- Two texts with one digest. -/
def SameDigest (a b : Text) : Prop := a ≠ b ∧ Sha256.ofText a = Sha256.ofText b

/-- Reported evidence has its digest exactly when another redaction leaves the stored text as
it is, but for two texts with one digest. -/
theorem hashes_iff {e : ReportedEvidence} {body : Text}
    (hbody : e.body = some (String.ofList body)) (hhash : e.contentHash = Sha256.ofText body) :
    hashes (cleanTree (serializeEvidence e)) = true ↔
      redactText body = body ∨ SameDigest (redactText body) body := by
  have hshown : (cleanTree (serializeEvidence e)).field "body" =
      .str (String.ofList (redactText body)) := by
    have hfield : (serializeEvidence e).field "body" = nullable e.body := rfl
    rw [serializeEvidence, field_cleanTree, ← serializeEvidence, hfield, hbody]
    simp [nullable, cleanTree, redact]
  have hprinted : (cleanTree (serializeEvidence e)).field "content_hash" =
      .str (Sha256.ofText body) := by
    have hfield : (serializeEvidence e).field "content_hash" = .str e.contentHash := rfl
    rw [serializeEvidence, field_cleanTree, ← serializeEvidence, hfield, hhash]
    simp [cleanTree, redact_ofText]
  simp only [hashes, hshown, hprinted, String.toList_ofList, beq_iff_eq, SameDigest]
  by_cases heq : redactText body = body
  · simp [heq]
  · simp [heq, eq_comm]

/-! ## Evidence over a run -/

variable [Sanitizer]

/-- The evidence that is there to be read was written by one of the two endpoints. -/
def Record.Collected (record : Record) : Prop := ∀ e ∈ record.evidence.rows, e.Written

/-- What an edit leaves was written by one of the two endpoints. -/
def Action.Collects : Action → Prop
  | .edit _ record => record.Collected
  | .call _ _ => True

def Phase.Collected : Phase → Prop
  | drafting _ draft => draft.view.Collected
  | _ => True

/-- The evidence of a snapshot was written by one of the two endpoints, and cleaned. -/
def Collected (s : Json) : Prop :=
  ∀ entry ∈ listAt s "evidence", ∃ e : ReportedEvidence,
    e.Written ∧ entry = cleanTree (serializeEvidence e)

/-- All evidence was written by one of the two endpoints. -/
structure Attested (w : Calls) : Prop where
  record : w.shared.record.Collected
  phase : ∀ c, (w.phase c).Collected
  stored : ∀ row ∈ w.shared.revisions.rows, Collected row.snapshot

variable {identity : Identity} {w w' : Calls} {c : ℕ}

theorem collected_empty : Record.empty.Collected := fun _ he => (List.not_mem_nil he).elim

theorem Record.Collected.collect {record : Record} (h : record.Collected) (programId : String)
    (payload : EvidenceCreate) (newId : String) (createdAt : Instant) :
    (record.collect programId payload newId createdAt).Collected := by
  unfold Record.collect
  split
  · rename_i e he
    intro other hother
    cases hinsert : record.evidence.insert e with
    | none => exact h other (by simpa [hinsert] using hother)
    | some rows =>
      have hrows : other ∈ rows.rows := by simpa [hinsert] using hother
      rw [Table.rows_of_insert hinsert, List.mem_append, List.mem_singleton] at hrows
      rcases hrows with hold | rfl
      · exact h other hold
      · exact written_createEvidence he
  · exact h

theorem Record.Collected.query {view stored : Record} (hview : view.Collected)
    (hstored : stored.Collected) (q : Query) : (view.query stored q).Collected := by
  cases q with
  | evidence => exact hstored
  | _ => exact hview

theorem Attested.enter {x : Phase} (h : Attested w) (hx : x.Collected) :
    Attested (w.enter c x) :=
  ⟨h.record, Clients.forall_enter hx h.phase, h.stored⟩

theorem Attested.commit {s : Shared} {x : Phase} (h : Attested w)
    (hrecord : s.record = w.shared.record)
    (hstored : ∀ row ∈ s.revisions.rows, Collected row.snapshot) (hx : x.Collected) :
    Attested (w.commit c s x id) :=
  ⟨hrecord ▸ h.record, Clients.forall_commit hx fun d _ => h.phase d, hstored⟩

theorem Attested.refuse (h : Attested w) (e : Refusal) : Attested (refuse w c e) :=
  h.enter trivial

theorem Attested.create {request : HttpRequest} {programId newId : String} {body : ReportContent}
    {createdAt : Instant} (h : Attested w) :
    Attested (create identity w c request programId body newId createdAt) := by
  unfold Deliverables.create
  split
  · exact h.refuse _
  split
  · exact h.refuse _
  · exact h.commit rfl h.stored collected_empty

theorem Attested.revise {request : HttpRequest} {programId reportId : String}
    {body : ReportContent} {base : ℤ} (h : Attested w) :
    Attested (revise identity w c request programId reportId body base) := by
  unfold Deliverables.revise
  split
  · exact h.refuse _
  · exact h.enter trivial

theorem Attested.mark {request : HttpRequest} {programId reportId : String} {revision : ℤ}
    {status : ReportStatus} (h : Attested w) :
    Attested (mark identity w c request programId reportId revision status) := by
  unfold Deliverables.mark
  split
  · exact h.refuse _
  · exact h.enter trivial

theorem Attested.lock {request : Request} (h : Attested w) (hnext : lock w c request = some w') :
    Attested w' := by
  unfold Deliverables.lock at hnext
  split at hnext
  · exact Option.some.inj hnext ▸ h.refuse _
  split at hnext
  · cases hnext
  split at hnext
  · exact Option.some.inj hnext ▸ h.commit rfl h.stored collected_empty
  · exact Option.some.inj hnext ▸ h.refuse _

theorem Attested.read {base : Option ℤ} {draft : Draft} (h : Attested w)
    (hc : w.phase c = .drafting base draft) (hnext : read w c base draft = some w') :
    Attested w' := by
  unfold Deliverables.read at hnext
  split at hnext
  · obtain rfl := Option.some.inj hnext
    have hview : draft.view.Collected := by simpa [hc, Phase.Collected] using h.phase c
    exact h.enter (hview.query h.record _)
  · cases hnext

theorem Attested.save {base : Option ℤ} {draft : Draft} {now : DateTime} {newId : String}
    {createdAt : Instant} (h : Attested w) (hc : w.phase c = .drafting base draft)
    (hnext : save w c base draft now newId createdAt = some w') : Attested w' := by
  obtain ⟨e, rfl⟩ | ⟨row, s, hrow, hadd, rfl⟩ := save_eq_some hnext
  · exact h.commit rfl h.stored trivial
  obtain ⟨-, hsnapshot, -⟩ := newRevision_eq_ok hrow
  have hview : draft.view.Collected := by simpa [hc, Phase.Collected] using h.phase c
  obtain ⟨reports, revisions, rfl, hrevisions, -⟩ := Shared.add_eq_ok hadd
  refine h.commit rfl (fun r hr => ?_) trivial
  have hr : r ∈ revisions.rows := hr
  rw [Table.rows_of_insert hrevisions, List.mem_append, List.mem_singleton] at hr
  rcases hr with hr | rfl
  · exact h.stored r hr
  · intro entry hentry
    obtain ⟨e, he, rfl⟩ := snapshot_evidence hsnapshot hentry
    exact ⟨e, hview e he, rfl⟩

theorem Attested.write {row : DeliverableRevision} {status : ReportStatus} (h : Attested w) :
    Attested (write w c row status) := by
  unfold Deliverables.write
  split
  · exact h.refuse _
  rename_i stored hstored
  split
  · exact h.enter trivial
  refine h.commit rfl (fun r hr => ?_) trivial
  obtain ⟨old, hold, status, rfl⟩ :=
    (rewrites_mark (Shared.get?_stored hstored) status).backward (Table.get?_of_mem hr)
  exact h.stored old (Table.mem_of_get? hold)

theorem Attested.step {a : Action} (h : Attested w) (ha : a.Collects)
    (hnext : next identity w a = some w') : Attested w' := by
  unfold next at hnext
  split at hnext
  · exact Option.some.inj hnext ▸ ⟨ha, h.phase, h.stored⟩
  split at hnext
  · exact Option.some.inj hnext ▸ h.create
  · exact Option.some.inj hnext ▸ h.revise
  · exact h.lock hnext
  · exact h.read ‹_› hnext
  · exact h.save ‹_› hnext
  · exact Option.some.inj hnext ▸ h.mark
  · exact Option.some.inj hnext ▸ h.write
  · cases hnext

theorem Interleaving.attested {db : Db} {record : Record} {actions : List Action}
    (h : Interleaving identity (start db record) actions w) (hrecord : record.Collected)
    (hactions : ∀ a ∈ actions, a.Collects) : Attested w := by
  have hstart : Attested (start db record) := ⟨hrecord, fun _ => trivial, nofun⟩
  let inv (as : List Action) (w : Calls) : Prop := (∀ a ∈ as, a.Collects) → Attested w
  have hrun : inv ([] ++ actions) w := by
    refine h.traceInvariant inv (fun hw hs has => ?_) fun _ => hstart
    cases hs with
    | step hnext =>
      exact (hw fun a ha => has a (List.mem_append_left _ ha)).step
        (has _ (List.mem_append_right _ (List.mem_singleton.mpr rfl))) hnext
  exact hrun hactions

omit [Unicode] [WordTable] [Sanitizer] in
def exampleOutput (output : String) : EvidenceCreate :=
  ⟨"terminal_output", "Login", output, none, "owner", "manual", "internal", "engagement"⟩

/-- Evidence with a password, and evidence without one. -/
def exampleCollected : Record :=
  let record := { Record.empty with profiles := .single ⟨"e1", "Portal", none⟩ }
  (record.collect "e1" (exampleOutput "password: hunter2") "x1" 0).collect "e1"
    (exampleOutput "ok") "x2" 1

omit [Unicode] [WordTable] [Sanitizer] in
/-- One report that shows both. -/
def exampleReport : List Action :=
  let body := { exampleContent with evidenceIds := ["x1", "x2"] }
  .call 1 (.create ⟨none, some "owner"⟩ "e1" body "r1" 0) ::
    queries.map (fun _ => .call 1 .read) ++ [.call 1 (.save exampleNow "v1" 1)]

theorem collected_example : exampleCollected.Collected :=
  (Record.Collected.collect (fun _ he => (List.not_mem_nil he).elim) _ _ _ _).collect _ _ _ _

theorem collects_example : ∀ a ∈ exampleReport, a.Collects := by
  simp [exampleReport, queries, Action.Collects]

omit [Unicode] [WordTable] [Sanitizer] in
/-- The call ends with a report in which the first digest is not the one of its text. -/
theorem hashes_example : ∃ w : Calls,
    @Interleaving Unicode.ascii WordTable.ascii ⟨id⟩ exampleSessions
      (start exampleEngagements (@exampleCollected Unicode.ascii WordTable.ascii ⟨id⟩))
      exampleReport w ∧
      w.shared.revisions.rows.map (fun row => (listAt row.snapshot "evidence").map hashes) =
        [[false, true]] := by
  let _ := Unicode.ascii
  let _ := WordTable.ascii
  let _ : Sanitizer := ⟨id⟩
  let taken := exampleReport.foldlM (fun s a => if True then next exampleSessions s a else none)
    (start exampleEngagements exampleCollected)
  have hrows : taken.map (fun w => w.shared.revisions.rows.map fun row =>
      (listAt row.snapshot "evidence").map hashes) = some [[false, true]] := by
    simp only [taken, next.eq_def, save.eq_def, newRevision, snapshot, cleanTree_eq_cleanCued]
    decide +kernel
  obtain ⟨w, hw, hrows⟩ := Option.map_eq_some_iff.mp hrows
  exact ⟨w, Lib.Run.of_foldlM hw, hrows⟩

end VardrMap.Deliverables
