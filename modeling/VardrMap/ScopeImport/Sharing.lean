import VardrMap.ScopeImport.Commits
import VardrMap.Lib.Clients

/-!
# Several imports on one engagement

Imports statement by statement. One that commits takes the lock of the engagement before it reads
what is in scope, and keeps it until it ends; a preview takes none. Whatever the order, no pair is
stored twice, and every stored row stays.
-/
namespace VardrMap.ScopeImport
open Lib Parsers Deliverables

/-! ## The statements -/

/-- What is stored, and which import has the lock of an engagement. -/
structure Shared where
  db : Db
  holder : String → Option ℕ

structure ImportCall where
  programId : String
  payload : ScopeImportRequest
  newId : ParsedItem → String

/-- What an import has parsed. -/
structure Export where
  call : ImportCall
  parsed : List ParsedItem
  skipped : List SkippedRow

/-- How far an import is, with the engagement as it has read it. -/
inductive Phase where
  | idle
  | checked (x : Export) (engagement : Engagement)
  | locked (x : Export) (engagement : Engagement)
  | compared (x : Export) (engagement : Engagement) (newItems duplicates : List ParsedItem)
  | ended (call : ImportCall) (result : Except Refusal ScopeImportResponse)

inductive Statement where
  | begin (request : HttpRequest) (call : ImportCall)
  | lock
  | compare
  | finish

abbrev Calls := Clients Shared Phase

/-- The locks of an import that ends. -/
def Shared.release (s : Shared) (c : ℕ) : Shared :=
  { s with holder := fun id => if s.holder id = some c then none else s.holder id }

/-- The lock of the engagement, and its row as it is stored then; another import waits. -/
def lock (w : Calls) (c : ℕ) (x : Export) : Option Calls :=
  let programId := x.call.programId
  if (w.shared.holder programId).isSome then none
  else match w.shared.db.engagements.get? programId with
    | some engagement => some (w.commit c
        { w.shared with holder := fun id => if id = programId then some c else w.shared.holder id }
        (.locked x engagement) id)
    | none => some (w.enter c (.ended x.call (.error .noRow)))

/-- What is in scope, against what was parsed. -/
def compare (w : Calls) (c : ℕ) (x : Export) (engagement : Engagement) : Calls :=
  let found := classify (scopeKeys w.shared.db x.call.programId) [] x.parsed
  w.enter c (.compared x engagement found.1 found.2)

variable [Unicode]

/-- The commit, or the end of a preview. -/
def finish (w : Calls) (c : ℕ) (x : Export) (engagement : Engagement)
    (newItems duplicates : List ParsedItem) : Calls :=
  let payload := x.call.payload
  match storeItems w.shared.db engagement x.call.newId
      (if payload.commit then newItems else []) with
  | .error e => w.commit c (w.shared.release c) (.ended x.call (.error e)) id
  | .ok db =>
    let created := if payload.commit then newItems.length else 0
    w.commit c ({ w.shared with db }.release c)
      (.ended x.call (.ok (respond payload created x.parsed newItems duplicates x.skipped))) id

variable [WordTable] [Sanitizer]

/-- The caller and the export. -/
def check (p : Platform) (request : HttpRequest) (call : ImportCall) (db : Db) :
    Except Refusal (Export × Engagement) := do
  let user ← getCurrentUser p.identity db request
  let engagement ← writableEngagement db call.programId user
  let (parsed, skipped) ← parseHackeroneScope call.payload.csv
  return (⟨call, parsed, skipped⟩, engagement)

def begin (p : Platform) (w : Calls) (c : ℕ) (request : HttpRequest) (call : ImportCall) : Calls :=
  match check p request call w.shared.db with
  | .error e => w.enter c (.ended call (.error e))
  | .ok (x, engagement) => w.enter c (.checked x engagement)

/-- One statement of one import. -/
def next (p : Platform) (w : Calls) : ℕ × Statement → Option Calls
  | (c, s) =>
    match w.phase c, s with
    | .idle, .begin request call => some (begin p w c request call)
    | .checked x _, .lock => if x.call.payload.commit then lock w c x else none
    | .checked x engagement, .compare =>
      if x.call.payload.commit then none else some (compare w c x engagement)
    | .locked x engagement, .compare => some (compare w c x engagement)
    | .compared x engagement newItems duplicates, .finish =>
      some (finish w c x engagement newItems duplicates)
    | _, _ => none

/-! ## What is stored -/

/-- A pair of an engagement. -/
def pairOf (r : ScopeItem) : String × String × String := (r.programId, r.scopeType, r.value)

/-- Every stored row stays, and what is added is new, each pair once. -/
def Grown (db db' : Db) : Prop :=
  ∃ added, db'.scopeItems.rows = db.scopeItems.rows ++ added ∧ (added.map pairOf).Nodup ∧
    ∀ r ∈ added, pairOf r ∉ db.scopeItems.rows.map pairOf

omit [Unicode] [WordTable] [Sanitizer] in
theorem mem_scopeKeys {db : Db} {programId : String} {k : String × String} :
    k ∈ scopeKeys db programId ↔ (programId, k) ∈ db.scopeItems.rows.map pairOf := by
  obtain ⟨scopeType, value⟩ := k
  simp only [scopeKeys, pairOf, List.mem_map, List.mem_filter, beq_iff_eq, Prod.mk.injEq]
  constructor
  · rintro ⟨r, ⟨hr, hprogram⟩, hkey⟩
    exact ⟨r, hr, hprogram, hkey⟩
  · rintro ⟨r, hr, hprogram, hkey⟩
    exact ⟨r, ⟨hr, hprogram⟩, hkey⟩

omit [Unicode] [WordTable] [Sanitizer] in
/-- New rows of one engagement grow what is stored. -/
theorem Grown.store {db db₁ db₂ : Db} {programId : String} {newId : ParsedItem → String}
    {items : List ParsedItem} (h : Grown db db₁) (hrows : db₂.scopeItems.rows =
      db₁.scopeItems.rows ++ items.map (ParsedItem.stored programId newId))
    (hnodup : (items.map ParsedItem.key).Nodup)
    (hnew : ∀ i ∈ items, i.key ∉ scopeKeys db₁ programId) : Grown db db₂ := by
  obtain ⟨added, hadded, haddedNodup, haddedNew⟩ := h
  have hpairs : (items.map (ParsedItem.stored programId newId)).map pairOf =
      (items.map ParsedItem.key).map (programId, ·) := by
    rw [List.map_map, List.map_map]
    rfl
  have hfresh : ∀ r ∈ items.map (ParsedItem.stored programId newId),
      pairOf r ∉ db₁.scopeItems.rows.map pairOf := by
    intro r hr
    obtain ⟨i, hi, rfl⟩ := List.mem_map.mp hr
    exact fun hmem => hnew i hi (mem_scopeKeys.mpr hmem)
  rw [hadded] at hfresh hrows
  refine ⟨added ++ items.map (ParsedItem.stored programId newId), ?_, ?_, fun r hr => ?_⟩
  · rw [hrows, List.append_assoc]
  · rw [List.map_append, List.nodup_append]
    refine ⟨haddedNodup, ?_, fun a ha b hb hab => ?_⟩
    · rw [hpairs]
      exact hnodup.map fun _ _ h => (Prod.mk.inj h).2
    · obtain ⟨r, hr, rfl⟩ := List.mem_map.mp hb
      refine hfresh r hr ?_
      rw [List.map_append]
      exact List.mem_append_right _ (hab ▸ ha)
  · rcases List.mem_append.mp hr with hr | hr
    · exact haddedNew r hr
    · intro hmem
      refine hfresh r hr ?_
      rw [List.map_append]
      exact List.mem_append_left _ hmem

/-! ## The invariant -/

/-- The import adds to the stored scope. -/
def ImportCall.commits (call : ImportCall) : Prop := call.payload.commit = true

/-- Where an import is, against what is stored: under the lock, what was new still is. -/
def Phase.Holds (s : Shared) (c : ℕ) : Phase → Prop
  | idle | checked _ _ => True
  | locked x engagement => x.call.commits ∧ s.holder x.call.programId = some c ∧
      engagement.id = x.call.programId
  | compared x engagement newItems _ => x.call.commits →
      (s.holder x.call.programId = some c ∧ engagement.id = x.call.programId) ∧
      (newItems.map ParsedItem.key).Nodup ∧
      ∀ i ∈ newItems, i.key ∉ scopeKeys s.db x.call.programId
  | ended call result => call.commits → ∀ r, result = .ok r →
      ∀ i ∈ r.newItems, i.key ∈ scopeKeys s.db call.programId

/-- Two imports into one engagement that both committed, and what each has added. -/
def Apart (x y : Phase) : Prop :=
  ∀ call call' r r', x = .ended call (.ok r) → y = .ended call' (.ok r') → call.commits →
    call'.commits → call.programId = call'.programId →
      ∀ i ∈ r.newItems, ∀ j ∈ r'.newItems, i.key ≠ j.key

structure Guarded (db : Db) (w : Calls) : Prop where
  grown : Grown db w.shared.db
  phase : ∀ c, (w.phase c).Holds w.shared c
  apart : ∀ c d, c ≠ d → Apart (w.phase c) (w.phase d)

/-- What one import does spares another: what is in scope stays, and an engagement that it has
locked is left alone. -/
structure Shared.Spares (s s' : Shared) (d : ℕ) : Prop where
  kept : ∀ id, scopeKeys s.db id ⊆ scopeKeys s'.db id
  locked : ∀ id, s.holder id = some d → s'.holder id = some d ∧
    scopeKeys s'.db id ⊆ scopeKeys s.db id

variable {p : Platform} {db : Db} {s s' : Shared} {w w' : Calls} {c : ℕ} {x : Export}
  {engagement : Engagement} {newItems duplicates : List ParsedItem}

omit [Unicode] [WordTable] [Sanitizer] in
theorem Phase.Holds.frame {phase : Phase} {d : ℕ} (h : phase.Holds s d) (hs : s.Spares s' d) :
    phase.Holds s' d := by
  cases phase with
  | idle | checked => trivial
  | locked x engagement => exact ⟨h.1, (hs.locked _ h.2.1).1, h.2.2⟩
  | compared x engagement newItems duplicates =>
    intro hcommits
    obtain ⟨⟨hlock, hid⟩, hnodup, hnew⟩ := h hcommits
    obtain ⟨hlock', hsub⟩ := hs.locked _ hlock
    exact ⟨⟨hlock', hid⟩, hnodup, fun i hi hmem => hnew i hi (hsub hmem)⟩
  | ended call result => exact fun hcommits r hr i hi => hs.kept _ (h hcommits r hr i hi)

omit [Unicode] [WordTable] [Sanitizer] in
/-- A refused import has added nothing. -/
theorem Phase.holds_refused {call : ImportCall} {e : Refusal} :
    (Phase.ended call (.error e)).Holds s c := by
  intro _ r hr
  cases hr

omit [Unicode] [WordTable] [Sanitizer] in
theorem Apart.symm {a b : Phase} (h : Apart a b) : Apart b a :=
  fun call call' r r' ha hb hc hc' hid i hi j hj heq =>
    h call' call r' r hb ha hc' hc hid.symm j hj i hi heq.symm

omit [Unicode] [WordTable] [Sanitizer] in
/-- An import goes on. -/
theorem Guarded.enter {phase : Phase} (h : Guarded db w) (hx : phase.Holds w.shared c)
    (hapart : ∀ d, Apart phase (w.phase d)) : Guarded db (w.enter c phase) := by
  refine ⟨h.grown, Clients.forall_enter hx h.phase, fun d e hde => ?_⟩
  rw [Clients.phase_enter, Clients.phase_enter]
  split
  · split
    · rename_i hd he
      exact absurd (hd.trans he.symm) hde
    · exact hapart e
  · split
    · exact (hapart d).symm
    · exact h.apart d e hde

omit [Unicode] [WordTable] [Sanitizer] in
/-- An import changes what is shared. -/
theorem Guarded.commit {phase : Phase} (h : Guarded db w) (hgrown : Grown db s'.db)
    (hspares : ∀ d ≠ c, w.shared.Spares s' d) (hx : phase.Holds s' c)
    (hapart : ∀ d ≠ c, Apart phase (w.phase d)) : Guarded db (w.commit c s' phase id) := by
  refine ⟨hgrown, Clients.forall_commit hx fun d hd => (h.phase d).frame (hspares d hd),
    fun d e hde => ?_⟩
  rw [Clients.phase_commit, Clients.phase_commit]
  split
  · split
    · rename_i hd he
      exact absurd (hd.trans he.symm) hde
    · exact hapart e ‹_›
  · split
    · exact (hapart d ‹_›).symm
    · exact h.apart d e hde

/-- What an import that has ended well has answered. -/
def Phase.answer : Phase → Option ScopeImportResponse
  | ended _ (.ok r) => some r
  | _ => none

omit [Unicode] [WordTable] [Sanitizer] in
/-- Only an import that has ended well has added anything. -/
theorem apart_of_none {a b : Phase} (h : a.answer = none) : Apart a b := by
  intro call _ r _ ha
  rw [ha] at h
  cases h

/-! ## The statements keep it -/

theorem Guarded.begin {request : HttpRequest} {call : ImportCall} (h : Guarded db w) :
    Guarded db (begin p w c request call) := by
  rw [ScopeImport.begin]
  split
  · exact h.enter Phase.holds_refused fun d => apart_of_none rfl
  · exact h.enter trivial fun d => apart_of_none rfl

omit [Unicode] [WordTable] [Sanitizer] in
theorem Guarded.lock (h : Guarded db w) (hcommits : x.call.commits)
    (hnext : lock w c x = some w') : Guarded db w' := by
  rw [ScopeImport.lock] at hnext
  split at hnext
  · cases hnext
  rename_i hfree
  split at hnext
  · rename_i engagement he
    obtain rfl := Option.some.inj hnext
    refine h.commit h.grown (fun d _ => ⟨fun id => List.Subset.refl _, fun id hid => ?_⟩)
      ⟨hcommits, if_pos rfl, Table.key_of_get? he⟩ fun d _ => apart_of_none rfl
    refine ⟨?_, List.Subset.refl _⟩
    dsimp only
    rw [if_neg]
    · exact hid
    · rintro rfl
      rw [hid] at hfree
      exact hfree rfl
  · obtain rfl := Option.some.inj hnext
    exact h.enter Phase.holds_refused fun d => apart_of_none rfl

omit [Unicode] [WordTable] [Sanitizer] in
theorem Guarded.compare (h : Guarded db w) (hlocked : x.call.commits →
    w.shared.holder x.call.programId = some c ∧ engagement.id = x.call.programId) :
    Guarded db (compare w c x engagement) := by
  refine h.enter (fun hcommits => ?_) fun d => apart_of_none rfl
  obtain ⟨hnodup, hkeys⟩ := newItems_keys (scopeKeys w.shared.db x.call.programId) x.parsed
  exact ⟨hlocked hcommits, hnodup, fun i hi => ((hkeys i.key).mp (List.mem_map_of_mem hi)).2⟩

omit [Unicode] [WordTable] [Sanitizer] in
/-- The locks of an import that ends are not those of the others. -/
theorem holder_release {d : ℕ} (hd : d ≠ c) {id : String} (h : s.holder id = some d) :
    (s.release c).holder id = some d := by
  rw [Shared.release]
  dsimp only
  rw [if_neg]
  · exact h
  · rw [h]
    exact fun heq => hd (Option.some.inj heq)

omit [WordTable] [Sanitizer] in
theorem Guarded.finish (h : Guarded db w)
    (hphase : (Phase.compared x engagement newItems duplicates).Holds w.shared c) :
    Guarded db (finish w c x engagement newItems duplicates) := by
  have hrelease : ∀ d ≠ c, w.shared.Spares (w.shared.release c) d := fun d hd =>
    ⟨fun id => List.Subset.refl _, fun id hid => ⟨holder_release hd hid, List.Subset.refl _⟩⟩
  rw [ScopeImport.finish]
  split
  · exact h.commit h.grown hrelease Phase.holds_refused fun d _ => apart_of_none rfl
  · rename_i db' hstored
    by_cases hcommits : x.call.payload.commit = true
    · obtain ⟨⟨hlock, hid⟩, hnodup, hnew⟩ := hphase hcommits
      rw [if_pos hcommits] at hstored
      obtain ⟨hrows, -, -⟩ := storeItems_eq_ok hstored
      rw [hid] at hrows
      have hkeys := scopeKeys_append hrows
      have hother : ∀ id, id ≠ x.call.programId → scopeKeys db' id = scopeKeys w.shared.db id :=
        fun _ hne => scopeKeys_append_of_ne hrows hne
      refine h.commit (h.grown.store hrows hnodup hnew)
        (fun d hd => ⟨fun id => ?_, fun id hid' => ?_⟩) (fun _ r hr i hi => ?_) fun d hd => ?_
      · by_cases hne : id = x.call.programId
        · subst hne
          exact hkeys ▸ List.subset_append_left _ _
        · exact (hother id hne).symm ▸ List.Subset.refl _
      · have hne : id ≠ x.call.programId := by
          rintro rfl
          rw [hlock] at hid'
          exact hd (Option.some.inj hid').symm
        exact ⟨holder_release hd hid', (hother id hne) ▸ List.Subset.refl _⟩
      · obtain rfl := Except.ok.inj hr
        exact hkeys ▸ List.mem_append_right _ (List.mem_map_of_mem hi)
      · intro call call' r r' ha hb _ hcommits' hprogram i hi j hj heq
        cases ha
        -- What the other import has added was in scope when this one compared.
        have hstored' : (w.phase d).Holds w.shared d := h.phase d
        rw [hb] at hstored'
        refine hnew i hi ?_
        rw [heq, hprogram]
        exact hstored' hcommits' r' rfl j hj
    · rw [if_neg hcommits] at hstored
      obtain rfl := Except.ok.inj hstored
      refine h.commit h.grown hrelease (fun hc => absurd hc hcommits) fun d _ call _ _ _ ha _ hc => ?_
      cases ha
      exact absurd hc hcommits

theorem Guarded.next {a : ℕ × Statement} (h : Guarded db w) (hnext : next p w a = some w') :
    Guarded db w' := by
  obtain ⟨c, statement⟩ := a
  have hphase := h.phase c
  unfold ScopeImport.next at hnext
  dsimp only at hnext
  split at hnext
  · obtain rfl := Option.some.inj hnext
    exact h.begin
  · obtain ⟨hcommits, hlock⟩ := Option.ite_none_right_eq_some.mp hnext
    exact h.lock hcommits hlock
  · split at hnext
    · cases hnext
    · rename_i hcommits
      obtain rfl := Option.some.inj hnext
      exact h.compare fun hc => absurd hc hcommits
  · rename_i x engagement heq
    obtain rfl := Option.some.inj hnext
    rw [heq] at hphase
    exact h.compare fun _ => hphase.2
  · rename_i x engagement newItems duplicates heq
    obtain rfl := Option.some.inj hnext
    rw [heq] at hphase
    exact h.finish hphase
  · cases hnext

omit [Unicode] [WordTable] [Sanitizer] in
theorem guarded_start (db : Db) : Guarded db (.start ⟨db, fun _ => none⟩ .idle) where
  grown := ⟨[], (List.append_nil _).symm, List.nodup_nil, nofun⟩
  phase _ := trivial
  apart _ _ _ := apart_of_none rfl

/-- Imports in any order keep the invariant. -/
theorem guarded_of_run {actions : List (ℕ × Statement)}
    (h : Lib.Run (Taken (next p) fun _ _ => True) (.start ⟨db, fun _ => none⟩ .idle) actions w) :
    Guarded db w :=
  h.invariant (Guarded db) (fun hw hstep => by
    obtain ⟨hnext, -⟩ := hstep
    exact hw.next hnext) (guarded_start db)

/-- The preview of an export and its commit find the same. A commit adds the pairs that are new
and nothing else, and after it the export is known. Imports at the same time add no pair twice. -/
theorem scope_import (p : Platform) :
    (∀ request programId payload newId db, payload.commit = false →
      (∀ e, importExport p request programId payload newId db = .error e → ∀ newId',
        importExport p request programId { payload with commit := true } newId' db = .error e) ∧
      ∀ db' r, importExport p request programId payload newId db = .ok (db', r) → db' = db ∧
        ∀ newId', (Fresh db newId' r.newItems → ∃ db'' r',
          importExport p request programId { payload with commit := true } newId' db =
            .ok (db'', r')) ∧
          ∀ db'' r', importExport p request programId { payload with commit := true } newId' db =
            .ok (db'', r') →
            r'.newItems = r.newItems ∧ r'.duplicates = r.duplicates ∧ r'.skipped = r.skipped) ∧
    (∀ request programId payload newId db db' r, payload.commit = true →
      importExport p request programId payload newId db = .ok (db', r) →
        (∃ parsed skipped, parseHackeroneScope payload.csv = .ok (parsed, skipped) ∧
          db'.scopeItems.rows =
            db.scopeItems.rows ++ r.newItems.map (ParsedItem.stored programId newId) ∧
          (r.newItems.map ParsedItem.key).Nodup ∧
          ∀ k, k ∈ r.newItems.map ParsedItem.key ↔
            k ∈ parsed.map ParsedItem.key ∧ k ∉ scopeKeys db programId) ∧
        ∀ request' newId' db'' r',
          importExport p request' programId payload newId' db' = .ok (db'', r') →
            db'' = db' ∧ r'.newItems = []) ∧
    ∀ db actions w,
      Lib.Run (Taken (next p) fun _ _ => True) (.start ⟨db, fun _ => none⟩ .idle) actions w →
      Grown db w.shared.db ∧ ∀ c d, c ≠ d → Apart (w.phase c) (w.phase d) := by
  refine ⟨fun request programId payload newId db hpreview =>
      ⟨fun e h newId' => ?_, fun db' r h => ?_⟩,
    fun request programId payload newId db db' r hcommit h => ?_, fun db actions w h => ?_⟩
  · exact commit_refused hpreview h newId'
  · refine ⟨preview_keeps hpreview h, fun newId' => ⟨fun hfresh => ?_, fun db'' r' h' => ?_⟩⟩
    · exact exists_commit h hfresh
    · have hcsv : ({ payload with commit := true } : ScopeImportRequest).csv = payload.csv := rfl
      exact report_eq hcsv h h'
  · exact ⟨commit_adds hcommit h, fun request' newId' db'' r' h' => again_keeps hcommit h h'⟩
  · exact ⟨(guarded_of_run h).grown, (guarded_of_run h).apart⟩

end VardrMap.ScopeImport
