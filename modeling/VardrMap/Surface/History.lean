import VardrMap.Surface.Links

/-!
# The history of a finding

Every change of a finding is recorded with what it is afterwards, and its first entry says what it
was before. The history only grows, and goes with the finding.
-/
namespace VardrMap.Surface
open Lib Assets Parsers Deliverables

/-! ## Entries -/

/-- The entries of a finding, oldest first. -/
def entriesOf (history : List HistoryEntry) (id : String) : List HistoryEntry :=
  history.filter fun e => e.findingId == id

section
variable {history history' : List HistoryEntry} {id id' : String} {e : HistoryEntry}

theorem entriesOf_append :
    entriesOf (history ++ history') id = entriesOf history id ++ entriesOf history' id :=
  List.filter_append ..

theorem mem_entriesOf : e ∈ entriesOf history id ↔ e ∈ history ∧ e.findingId = id := by
  unfold entriesOf
  rw [List.mem_filter, beq_iff_eq]

theorem entriesOf_self (he : e.findingId = id) : entriesOf [e] id = [e] :=
  List.filter_cons_of_pos (beq_iff_eq.mpr he)

theorem entriesOf_other (he : e.findingId ≠ id) : entriesOf [e] id = [] :=
  List.filter_cons_of_neg (by simpa using he)

theorem any_entries :
    (history.any fun e => e.findingId == id) = !(entriesOf history id).isEmpty := by
  rw [Bool.eq_iff_iff, List.any_eq_true, Bool.not_eq_true', List.isEmpty_eq_false_iff_exists_mem]
  refine exists_congr fun e => ?_
  rw [mem_entriesOf, beq_iff_eq]

/-- Entries that are kept or dropped together. -/
theorem entriesOf_filter {p : HistoryEntry → Bool}
    (hp : ∀ e ∈ history, e.findingId = id → p e = true) :
    entriesOf (history.filter p) id = entriesOf history id := by
  unfold entriesOf
  rw [List.filter_filter]
  refine List.filter_congr fun e he => ?_
  by_cases hid : e.findingId = id
  · simp [hid, hp e he hid]
  · simp [hid]

end

variable [Unicode] [WordTable]

/-- What an entry keeps of a finding. -/
def TrackedFinding.snapshot (f : TrackedFinding) : Json := cleanTree (serializeFinding f.toFinding)

section
variable {v : Visit} {f : TrackedFinding} {history : List HistoryEntry} {id : String}

theorem entriesOf_record {kind notes : String} {outcome : Option String} {evidence : List Json} :
    entriesOf [record v f id kind notes outcome evidence] f.id =
      [record v f id kind notes outcome evidence] :=
  entriesOf_self rfl

/-- The entries of a finding after its baseline. -/
theorem captureBaseline_self : entriesOf (captureBaseline v f history) f.id =
    if (entriesOf history f.id).isEmpty then
      [record v f (v.uuid 1) "baseline" "State when history tracking began." none []]
    else entriesOf history f.id := by
  unfold captureBaseline
  rw [any_entries]
  by_cases hempty : (entriesOf history f.id).isEmpty = true
  · rw [if_pos hempty, if_neg (by simp [hempty]), entriesOf_append, List.isEmpty_iff.mp hempty,
      entriesOf_record, List.nil_append]
  · rw [if_neg hempty, if_pos (by simpa using hempty)]

theorem captureBaseline_other (hid : f.id ≠ id) :
    entriesOf (captureBaseline v f history) id = entriesOf history id := by
  unfold captureBaseline
  split
  · rfl
  · rw [entriesOf_append, entriesOf_other hid, List.append_nil]

theorem mem_captureBaseline {e : HistoryEntry} (he : e ∈ captureBaseline v f history) :
    e ∈ history ∨
      e = record v f (v.uuid 1) "baseline" "State when history tracking began." none [] := by
  unfold captureBaseline at he
  split at he
  · exact .inl he
  · exact (List.mem_append.mp he).imp_right List.mem_singleton.mp

end

/-! ## What a request writes -/

/-- Who asks, and for which engagement. -/
def Input.visit : Input → Option (Visit × String)
  | .importFile v programId _ _ _ | .createServices v programId _ _ | .deleteService v programId _
  | .addFinding v programId _ | .updateFinding v programId _ _ | .deleteFinding v programId _
  | .addActivity v programId _ _ => some (v, programId)
  | .dropEngagement _ => none

/-- Somebody who may write to an engagement asks. -/
structure Input.By (i : Input) (v : Visit) (programId : String) : Prop where
  visit : i.visit = some (v, programId)
  writes : (writableEngagement v.db programId v.user).isOk = true

/-- What an accepted request does to findings and their history. -/
inductive Writes (i : Input) (s s' : Tables) : Prop
  | nothing (findings : s'.findings = s.findings) (history : s'.history = s.history)
  | created (v : Visit) (f : TrackedFinding) (id : String) (author : i.By v f.programId)
      (findings : s.findings.insert f = some s'.findings)
      (history : s'.history = s.history ++ [record v f id "created" "" none []])
  | changed (v : Visit) (old f : TrackedFinding) (id kind notes : String)
      (outcome : Option String) (evidence : List Json) (author : i.By v f.programId)
      (stored : s.findings.get? f.id = some old) (same : old.programId = f.programId)
      (later : kind ≠ "created" ∧ kind ≠ "baseline")
      (findings : s'.findings = s.findings.put f)
      (history : s'.history =
        captureBaseline v old s.history ++ [record v f id kind notes outcome evidence])
  | deleted (f : TrackedFinding) (findings : s'.findings = s.findings.filter fun g => g.id != f.id)
      (history : s'.history = s.history.filter fun e => e.findingId != f.id)
  | dropped (id : String)
      (findings : s'.findings = s.findings.filter fun g => g.programId != id)
      (history : s'.history = s.history.filter fun e => e.programId != id)

section
variable {newId : ℕ → String} {v : Visit} {programId : String} {s s' : Tables}

omit [WordTable] in
theorem linkFinding_same {f f' : TrackedFinding} {assets' : List Asset}
    (h : linkFinding newId v programId f s = .ok (assets', f')) : f'.toFinding = f.toFinding := by
  unfold linkFinding at h
  split at h
  · obtain ⟨-, rfl⟩ := Prod.mk.inj (Except.ok.inj h)
    rfl
  · obtain ⟨_, -, h⟩ := bind_eq_ok h
    obtain ⟨-, rfl⟩ := Prod.mk.inj (Except.ok.inj h)
    rfl

omit [WordTable] in
theorem relinkFinding_same {u : FindingUpdate} {f f' : TrackedFinding}
    {assets' : List Asset}
    (h : relinkFinding newId v programId u f s = .ok (assets', f')) :
    f'.toFinding = f.toFinding := by
  unfold relinkFinding at h
  split at h
  · exact linkFinding_same h
  · obtain ⟨-, rfl⟩ := Prod.mk.inj (Except.ok.inj h)
    rfl

omit [Unicode] [WordTable] in
theorem isOk_of_eq_ok {α ε : Type} {x : Except ε α} {a : α} (h : x = .ok a) : x.isOk = true := by
  rw [h]
  rfl

theorem addFinding_writes {p : FindingCreate}
    (h : addFinding newId v programId p s = .ok s') :
    Writes (.addFinding v programId p) s s' := by
  obtain ⟨_, assets', f, findings, hwritable, hlink, hinsert, rfl⟩ := addFinding_eq_ok h
  have hprogram : f.programId = programId := congrArg Finding.programId (linkFinding_same hlink)
  refine .created v f (v.uuid 2) ?_ hinsert rfl
  rw [hprogram]
  exact ⟨rfl, isOk_of_eq_ok hwritable⟩

theorem updateFinding_writes {findingId : String} {u : FindingUpdate}
    (h : updateFinding newId v programId findingId u s = .ok s') :
    Writes (.updateFinding v programId findingId u) s s' := by
  obtain ⟨_, old, title, assets', f, hwritable, hget, hprogram, hlink, rfl⟩ := updateFinding_eq_ok h
  have hsame := relinkFinding_same hlink
  have hid : f.id = old.id := (congrArg Finding.id hsame).trans rfl
  have hprogram' : f.programId = old.programId := (congrArg Finding.programId hsame).trans rfl
  have hkey : old.id = findingId := Table.key_of_get? hget
  refine .changed v old f (v.uuid 2) "updated" "" none [] ?_ ?_ hprogram'.symm ?_ rfl rfl
  · rw [hprogram', hprogram]
    exact ⟨rfl, isOk_of_eq_ok hwritable⟩
  · rw [hid, hkey]
    exact hget
  · decide

theorem addActivity_writes [Sanitizer] {findingId : String} {body : ActivityCreate}
    (h : addActivity v programId findingId body s = .ok s') :
    Writes (.addActivity v programId findingId body) s s' := by
  obtain ⟨_, f, notes, evidence, hwritable, hget, hprogram, rfl⟩ := addActivity_eq_ok h
  have hkey : f.id = findingId := Table.key_of_get? hget
  have hstored : s.findings.get? f.id = some f := hkey.symm ▸ hget
  refine .changed v f f (v.uuid 2) body.kind.text notes body.outcome evidence ?_ hstored rfl ?_
    (Table.put_of_get? hstored).symm rfl
  · rw [hprogram]
    exact ⟨rfl, isOk_of_eq_ok hwritable⟩
  · cases body.kind with
    | remediation | retest => decide

omit [WordTable] in
theorem putService_aside {svc : ServiceIn} (h : putService newId v programId s svc = .ok s') :
    s'.findings = s.findings ∧ s'.history = s.history := by
  rcases putService_eq_ok h with ⟨_, _, _, -, -, rfl⟩ | ⟨_, _, _, _, -, -, -, rfl⟩
  · exact ⟨rfl, rfl⟩
  · exact ⟨rfl, rfl⟩

omit [WordTable] in
theorem foldlM_aside {services : List ServiceIn}
    (h : services.foldlM (putService newId v programId) s = .ok s') :
    s'.findings = s.findings ∧ s'.history = s.history := by
  induction services generalizing s with
  | nil =>
    obtain rfl := Except.ok.inj h
    exact ⟨rfl, rfl⟩
  | cons svc services ih =>
    rw [List.foldlM_cons] at h
    obtain ⟨s₁, hput, h⟩ := bind_eq_ok h
    obtain ⟨hfindings, hhistory⟩ := putService_aside hput
    obtain ⟨hfindings', hhistory'⟩ := ih h
    exact ⟨hfindings'.trans hfindings, hhistory'.trans hhistory⟩

/-- One request. -/
theorem Writes.of_run [Sanitizer] {i : Input} (h : i.run newId s = .ok s') : Writes i s s' := by
  cases i with
  | importFile v programId jobId tool items =>
    obtain ⟨imported, -, rfl⟩ := importFile_eq_ok h
    exact .nothing rfl rfl
  | createServices v programId services jobId =>
    obtain ⟨hfindings, hhistory⟩ := foldlM_aside (bulkCreateServices_eq_ok h)
    exact .nothing hfindings hhistory
  | deleteService v programId serviceId =>
    obtain ⟨services, -, rfl⟩ := deleteService_eq_ok h
    exact .nothing rfl rfl
  | addFinding v programId p => exact addFinding_writes h
  | updateFinding v programId findingId u => exact updateFinding_writes h
  | deleteFinding v programId findingId =>
    obtain ⟨f, rfl⟩ := deleteFinding_eq_ok h
    exact .deleted f rfl rfl
  | addActivity v programId findingId body => exact addActivity_writes h
  | dropEngagement id =>
    obtain rfl := Except.ok.inj h
    exact .dropped id rfl rfl

end

/-! ## What the entries say -/

/-- What the entries of a finding say of it. Without entries it is as it was at the start; else the
first entry, and no other, says that it was created or what it was at the start, and the last one
what it is now. -/
inductive Told (start : Table TrackedFinding) (f : TrackedFinding) : List HistoryEntry → Prop
  | untouched (kept : f ∈ start.rows) : Told start f []
  | since (first : HistoryEntry) (later : List HistoryEntry)
      (begins : first.kind = "created" ∨
        first.kind = "baseline" ∧ ∃ f₀ ∈ start.rows, f₀.id = f.id ∧ first.snapshot = f₀.snapshot)
      (changes : ∀ e ∈ later, e.kind ≠ "created" ∧ e.kind ≠ "baseline")
      (current : (first :: later).getLast?.map HistoryEntry.snapshot = some f.snapshot) :
      Told start f (first :: later)

/-- Findings and histories are in order. -/
structure Recorded (start : Table TrackedFinding) (s : Tables) : Prop where
  told : ∀ f ∈ s.findings.rows, Told start f (entriesOf s.history f.id)
  owned : ∀ e ∈ s.history,
    ∃ f ∈ s.findings.rows, f.id = e.findingId ∧ f.programId = e.programId

section
variable {start : Table TrackedFinding} {s s' : Tables} {i : Input}

theorem Recorded.initial (hs : s.history = []) : Recorded s.findings s where
  told := fun f hf => by
    rw [hs]
    exact .untouched hf
  owned := fun e he => by
    rw [hs] at he
    exact absurd he List.not_mem_nil

/-- A change that is recorded. -/
theorem Told.record {v : Visit} {old f : TrackedFinding} {id kind notes : String}
    {outcome : Option String} {evidence : List Json} {history : List HistoryEntry}
    (h : Told start old (entriesOf history old.id)) (hid : f.id = old.id)
    (hlater : kind ≠ "created" ∧ kind ≠ "baseline") :
    Told start f (entriesOf
      (captureBaseline v old history ++ [Surface.record v f id kind notes outcome evidence])
        f.id) := by
  rw [entriesOf_append, entriesOf_record, hid, captureBaseline_self]
  generalize entriesOf history old.id = entries at h ⊢
  cases h with
  | untouched kept =>
    refine .since _ _ (.inr ⟨rfl, old, kept, hid.symm, rfl⟩) (fun e he => ?_) rfl
    obtain rfl := List.mem_singleton.mp he
    exact hlater
  | since first later begins changes current =>
    refine .since first (later ++ [_]) ?_ (fun e he => ?_) ?_
    · rw [hid]
      exact begins
    · rcases List.mem_append.mp he with he | he
      · exact changes e he
      · obtain rfl := List.mem_singleton.mp he
        exact hlater
    · rw [← List.cons_append, List.getLast?_concat]
      rfl

/-- A stored finding has the engagement of its entries. -/
theorem Recorded.program (h : Recorded start s) {f : TrackedFinding} (hf : f ∈ s.findings.rows)
    {e : HistoryEntry} (he : e ∈ s.history) (hid : e.findingId = f.id) :
    e.programId = f.programId := by
  obtain ⟨g, hg, hgid, hprogram⟩ := h.owned e he
  obtain rfl := Table.eq_of_key hg hf (hgid.trans hid)
  exact hprogram.symm

/-- Entries of a finding that stays, when the rows of an engagement go. -/
theorem Recorded.entries_dropped (h : Recorded start s) {f : TrackedFinding}
    (hf : f ∈ s.findings.rows) {id : String} (hother : f.programId ≠ id) :
    entriesOf (s.history.filter fun e => e.programId != id) f.id = entriesOf s.history f.id :=
  entriesOf_filter fun e he hid => by
    rw [h.program hf he hid]
    exact bne_iff_ne.mpr hother

omit [Unicode] [WordTable] in
/-- Entries of other findings than one that is deleted. -/
theorem entries_deleted {history : List HistoryEntry} {id id' : String} (hid : id ≠ id') :
    entriesOf (history.filter fun e => e.findingId != id') id = entriesOf history id :=
  entriesOf_filter fun _ _ he => bne_iff_ne.mpr (he.trans_ne hid)

/-- One request. -/
theorem Recorded.writes (h : Recorded start s) (hw : Writes i s s') : Recorded start s' := by
  cases hw with
  | nothing findings history => exact ⟨findings ▸ history ▸ h.told, findings ▸ history ▸ h.owned⟩
  | created v f id author findings history =>
    have hrows := Table.rows_of_insert findings
    have hnew : ∀ g ∈ s.findings.rows, g.id ≠ f.id :=
      Table.get?_eq_none.mp (Table.get?_of_insert findings)
    refine ⟨fun g hg => ?_, fun e he => ?_⟩
    · rw [history, entriesOf_append]
      rw [hrows] at hg
      rcases List.mem_append.mp hg with hg | hg
      · rw [entriesOf_other (hnew g hg).symm, List.append_nil]
        exact h.told g hg
      · obtain rfl := List.mem_singleton.mp hg
        have hnone : entriesOf s.history g.id = [] :=
          List.filter_eq_nil_iff.mpr fun e he hid => by
            obtain ⟨g', hg', hgid, -⟩ := h.owned e he
            exact hnew g' hg' (hgid.trans (beq_iff_eq.mp hid))
        rw [hnone, entriesOf_record]
        exact .since _ [] (.inl rfl) (fun e he => absurd he List.not_mem_nil) rfl
    · rw [hrows]
      rw [history] at he
      rcases List.mem_append.mp he with he | he
      · obtain ⟨g, hg, hid⟩ := h.owned e he
        exact ⟨g, List.mem_append_left _ hg, hid⟩
      · obtain rfl := List.mem_singleton.mp he
        exact ⟨f, List.mem_append_right _ (List.mem_singleton_self f), rfl, rfl⟩
  | changed v old f id kind notes outcome evidence author stored same later findings history =>
    have hid : f.id = old.id := (Table.key_of_get? stored).symm
    have hf : f ∈ (s.findings.put f).rows := Table.mem_of_get? (Table.get?_put_self stored)
    have hold := Table.mem_of_get? stored
    refine ⟨fun g hg => ?_, fun e he => ?_⟩
    · rw [findings] at hg
      rw [history]
      by_cases hgid : g.id = f.id
      · obtain rfl := Table.eq_of_key hg hf hgid
        exact (h.told old hold).record hid later
      · have hg' : g ∈ s.findings.rows :=
          (mem_put hg).resolve_right fun hgf => hgid (congrArg (·.id) hgf)
        rw [entriesOf_append, entriesOf_other (Ne.symm hgid), List.append_nil,
          captureBaseline_other (hid ▸ Ne.symm hgid)]
        exact h.told g hg'
    · rw [findings]
      have howned : ∀ e ∈ s.history, ∃ g ∈ (s.findings.put f).rows,
          g.id = e.findingId ∧ g.programId = e.programId := fun e he => by
        obtain ⟨g, hg, hgid, hprogram⟩ := h.owned e he
        by_cases hsame : g.id = f.id
        · obtain rfl := Table.eq_of_key hg hold (hsame.trans hid)
          exact ⟨f, hf, hsame.symm.trans hgid, same.symm.trans hprogram⟩
        · have hkept := (Table.get?_put_ne (Ne.symm hsame)).trans (Table.get?_of_mem hg)
          exact ⟨g, Table.mem_of_get? hkept, hgid, hprogram⟩
      rw [history] at he
      rcases List.mem_append.mp he with he | he
      · rcases mem_captureBaseline he with he | rfl
        · exact howned e he
        · exact ⟨f, hf, hid, same.symm⟩
      · obtain rfl := List.mem_singleton.mp he
        exact ⟨f, hf, rfl, rfl⟩
  | deleted f findings history =>
    refine ⟨fun g hg => ?_, fun e he => ?_⟩
    · rw [findings] at hg
      obtain ⟨hg, hother⟩ := List.mem_filter.mp hg
      rw [history, entries_deleted (bne_iff_ne.mp hother)]
      exact h.told g hg
    · rw [history] at he
      obtain ⟨he, hother⟩ := List.mem_filter.mp he
      obtain ⟨g, hg, hid, hprogram⟩ := h.owned e he
      rw [findings]
      exact ⟨g, List.mem_filter.mpr ⟨hg, hid ▸ hother⟩, hid, hprogram⟩
  | dropped id findings history =>
    refine ⟨fun g hg => ?_, fun e he => ?_⟩
    · rw [findings] at hg
      obtain ⟨hg, hother⟩ := List.mem_filter.mp hg
      rw [history, h.entries_dropped hg (bne_iff_ne.mp hother)]
      exact h.told g hg
    · rw [history] at he
      obtain ⟨he, hother⟩ := List.mem_filter.mp he
      obtain ⟨g, hg, hid, hprogram⟩ := h.owned e he
      rw [findings]
      exact ⟨g, List.mem_filter.mpr ⟨hg, hprogram ▸ hother⟩, hid, hprogram⟩

/-- The entries of a finding that stays only grow. -/
theorem Recorded.grows (h : Recorded start s) (hw : Writes i s s') {f : TrackedFinding}
    (hf : f ∈ s.findings.rows) {f' : TrackedFinding} (hf' : f' ∈ s'.findings.rows)
    (hid : f'.id = f.id) : entriesOf s.history f.id <+: entriesOf s'.history f.id := by
  cases hw with
  | nothing findings history => rw [history]
  | created v g id author findings history =>
    rw [history, entriesOf_append]
    exact List.prefix_append ..
  | changed v old g id kind notes outcome evidence author stored same later findings history =>
    rw [history, entriesOf_append]
    refine List.IsPrefix.trans ?_ (List.prefix_append ..)
    unfold captureBaseline
    split
    · exact List.prefix_rfl
    · rw [entriesOf_append]
      exact List.prefix_append ..
  | deleted g findings history =>
    rw [findings] at hf'
    have hother := bne_iff_ne.mp (List.mem_filter.mp hf').2
    rw [history, entries_deleted (hid ▸ hother)]
  | dropped id findings history =>
    rw [findings] at hf'
    obtain ⟨hf', hother⟩ := List.mem_filter.mp hf'
    obtain rfl := Table.eq_of_key hf' hf hid
    rw [history, h.entries_dropped hf (bne_iff_ne.mp hother)]

omit [WordTable] in
/-- An entry says who asked for it, who might write to its engagement, and when. -/
def Input.Signs (i : Input) (e : HistoryEntry) : Prop :=
  ∃ v, i.By v e.programId ∧ e.actor = v.user.githubId ∧ e.createdAt = v.wall

theorem Writes.signs (hw : Writes i s s') {e : HistoryEntry} (he : e ∈ s'.history) :
    e ∈ s.history ∨ i.Signs e := by
  cases hw with
  | nothing findings history => exact .inl (history ▸ he)
  | created v f id author findings history =>
    rw [history] at he
    refine (List.mem_append.mp he).imp_right fun he => ?_
    obtain rfl := List.mem_singleton.mp he
    exact ⟨v, author, rfl, rfl⟩
  | changed v old f id kind notes outcome evidence author stored same later findings history =>
    rw [history] at he
    rcases List.mem_append.mp he with he | he
    · refine (mem_captureBaseline he).imp_right ?_
      rintro rfl
      refine ⟨v, ?_, rfl, rfl⟩
      change i.By v old.programId
      rw [same]
      exact author
    · obtain rfl := List.mem_singleton.mp he
      exact .inr ⟨v, author, rfl, rfl⟩
  | deleted f findings history =>
    rw [history] at he
    exact .inl (List.mem_filter.mp he).1
  | dropped id findings history =>
    rw [history] at he
    exact .inl (List.mem_filter.mp he).1

end

/-! ## Runs -/

section
variable [Sanitizer] {newId : ℕ → String} {start : Table TrackedFinding} {s : Tables}

/-- One input, accepted or refused. -/
theorem step_writes (newId : ℕ → String) (s : Tables) (i : Input) :
    Writes i s (step newId s i) := by
  unfold step
  cases hi : i.run newId s with
  | error e => exact .nothing rfl rfl
  | ok s' => exact .of_run hi

theorem Recorded.after (h : Recorded start s) (inputs : List Input) :
    Recorded start (after newId inputs s) := by
  induction inputs generalizing s with
  | nil => exact h
  | cons i inputs ih => exact ih (h.writes (step_writes newId s i))

theorem Recorded.grows_after (h : Recorded start s) {id : String} (inputs : List Input)
    (hstored : ∀ k, ((Surface.after newId (inputs.take k) s).findings.get? id).isSome = true) :
    entriesOf s.history id <+: entriesOf (Surface.after newId inputs s).history id := by
  induction inputs generalizing s with
  | nil => exact List.prefix_rfl
  | cons i inputs ih =>
    have hw := step_writes newId s i
    obtain ⟨f, hf⟩ := Option.isSome_iff_exists.mp (hstored 0)
    obtain ⟨f', hf'⟩ := Option.isSome_iff_exists.mp (hstored 1)
    have hid : f.id = id := Table.key_of_get? hf
    have hid' : f'.id = id := Table.key_of_get? hf'
    have hgrows := h.grows hw (Table.mem_of_get? hf) (Table.mem_of_get? hf')
      (hid'.trans hid.symm)
    rw [hid] at hgrows
    exact hgrows.trans (ih (h.writes hw) fun k => hstored (k + 1))

theorem after_signed (inputs : List Input) {e : HistoryEntry}
    (he : e ∈ (after newId inputs s).history) : e ∈ s.history ∨ ∃ i ∈ inputs, i.Signs e := by
  induction inputs generalizing s with
  | nil => exact .inl he
  | cons i inputs ih =>
    rcases ih he with he | ⟨j, hj, hsigns⟩
    · exact ((step_writes newId s i).signs he).imp_right fun hsigns =>
        ⟨i, List.mem_cons_self .., hsigns⟩
    · exact .inr ⟨j, List.mem_cons_of_mem _ hj, hsigns⟩

end

/-- A finding from before there was a history. -/
def legacyFinding : TrackedFinding where
  id := "f1"
  programId := "e1"
  title := "IDOR"
  severity := some "high"
  asset := some ""
  status := some "new"
  summary := some ""
  steps := some ""
  impact := some ""
  remediation := some ""
  createdAt := none
  assetId := none

def legacyTables : Tables := { Tables.empty with findings := .single legacyFinding }

/-- It is marked as fixed. -/
def markedFixed : List Input := [.updateFinding ownerVisit "e1" "f1"
  ⟨none, none, none, some (some "fixed"), none, none, none, none⟩]

end VardrMap.Surface
