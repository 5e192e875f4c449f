import VardrMap.Deliverables.Digests

/-!
# The lines of reported evidence

An entry of evidence is a heading, a line of metadata, a line of provenance and an indented body.
The body is split into its lines before it is indented. The fields of the other three are put into
their lines as they are, so the entry has these lines exactly when no field holds a line break.
-/
namespace VardrMap.Deliverables
open Lib Parsers

/-! ## Splitting lines -/

/-- A text within one line. -/
def SingleLine (l : Text) : Prop := ∀ c ∈ l, isLineBreak c = false

theorem singleLine_nil : SingleLine [] := fun _ hc => (List.not_mem_nil hc).elim

theorem SingleLine.append {a b : Text} (ha : SingleLine a) (hb : SingleLine b) :
    SingleLine (a ++ b) := fun c hc => (List.mem_append.mp hc).elim (ha c) (hb c)

theorem singleLine_append_iff {a b : Text} :
    SingleLine (a ++ b) ↔ SingleLine a ∧ SingleLine b := by
  simp only [SingleLine, List.forall_mem_append]

theorem splitlinesFrom_cons {c : Char} (h : isLineBreak c = false) (line l : Text) :
    splitlinesFrom line (c :: l) = splitlinesFrom (line ++ [c]) l := by
  rw [splitlinesFrom, if_neg (by simp [h])]
  rintro l' rfl
  simp [isLineBreak] at h

theorem splitlinesFrom_append {a : Text} (h : SingleLine a) (line l : Text) :
    splitlinesFrom line (a ++ l) = splitlinesFrom (line ++ a) l := by
  induction a generalizing line with
  | nil => rw [List.nil_append, List.append_nil]
  | cons c a ih =>
    have hc := h c (List.mem_cons_self ..)
    rw [List.cons_append, splitlinesFrom_cons hc, ih fun d hd => h d (List.mem_cons_of_mem _ hd),
      List.append_assoc, List.singleton_append]

theorem splitlinesFrom_newline (line l : Text) :
    splitlinesFrom line ('\n' :: l) = line :: splitlinesFrom [] l := by
  rw [splitlinesFrom, if_pos (by decide)]
  rintro l' h
  cases h

/-- A line in front. -/
theorem splitlines_append_newline {a : Text} (h : SingleLine a) (l : Text) :
    splitlines (a ++ '\n' :: l) = a :: splitlines l := by
  rw [splitlines, splitlinesFrom_append h, List.nil_append, splitlinesFrom_newline, splitlines]

theorem splitlines_singleLine {a : Text} (h : SingleLine a) (hne : a ≠ []) : splitlines a = [a] := by
  rw [← List.append_nil a, splitlines, splitlinesFrom_append h, splitlinesFrom, List.nil_append,
    List.append_nil, if_neg (by simpa using hne)]

/-- Lines hold no line breaks. -/
theorem singleLine_of_mem_splitlinesFrom {line l t : Text} (hline : SingleLine line)
    (h : t ∈ splitlinesFrom line l) : SingleLine t := by
  induction line, l using splitlinesFrom.induct with
  | case1 line hempty => simp [splitlinesFrom, hempty] at h
  | case2 line hne =>
    simp only [splitlinesFrom, hne] at h
    exact List.mem_singleton.mp h ▸ hline
  | case3 line l ih =>
    rw [splitlinesFrom] at h
    rcases List.mem_cons.mp h with rfl | h
    · exact hline
    · exact ih singleLine_nil h
  | case4 line c l hcr hbreak ih =>
    rw [splitlinesFrom.eq_3 _ _ _ hcr, if_pos hbreak] at h
    rcases List.mem_cons.mp h with rfl | h
    · exact hline
    · exact ih singleLine_nil h
  | case5 line c l hcr hbreak ih =>
    rw [splitlinesFrom.eq_3 _ _ _ hcr, if_neg hbreak] at h
    refine ih (hline.append fun d hd => ?_) h
    rw [List.mem_singleton.mp hd]
    exact eq_false_of_ne_true hbreak

theorem singleLine_of_mem_splitlines {l t : Text} (h : t ∈ splitlines l) : SingleLine t :=
  singleLine_of_mem_splitlinesFrom singleLine_nil h

/-- What a break does to its line does not depend on what follows, but for the second half of a
carriage return with a line feed. -/
theorem splitlinesFrom_break {c : Char} (h : isLineBreak c = true) {line l : Text}
    (hcr : ∀ l', c = '\r' → l = '\n' :: l' → False) :
    splitlinesFrom line (c :: l) = line :: splitlinesFrom [] l := by
  rw [splitlinesFrom.eq_3 _ _ _ hcr, if_pos h]

/-- The lines up to a line feed, and those behind it. -/
theorem splitlinesFrom_append_newline (line a l : Text) :
    splitlinesFrom line (a ++ '\n' :: l) = splitlinesFrom line (a ++ ['\n']) ++ splitlines l := by
  induction line, a using splitlinesFrom.induct with
  | case1 line | case2 line =>
    rw [List.nil_append, List.nil_append, splitlinesFrom_newline, splitlinesFrom_newline]
    rfl
  | case3 line a ih =>
    simp only [List.cons_append, splitlinesFrom, ih]
  | case4 line c a hcr hbreak ih =>
    by_cases hlone : c = '\r' ∧ a = []
    · obtain ⟨rfl, rfl⟩ := hlone
      rfl
    · have hcr' : ∀ tail l', c = '\r' → a ++ '\n' :: tail = '\n' :: l' → False :=
        fun tail l' hc ha => by
          cases a with
          | nil => exact hlone ⟨hc, rfl⟩
          | cons d a => exact hcr a hc (by rw [(List.cons.inj ha).1])
      rw [List.cons_append, List.cons_append, splitlinesFrom_break hbreak (hcr' l),
        splitlinesFrom_break hbreak (hcr' []), ih, List.cons_append]
  | case5 line c a hcr hbreak ih =>
    have hc := eq_false_of_ne_true hbreak
    rw [List.cons_append, List.cons_append, splitlinesFrom_cons hc, splitlinesFrom_cons hc, ih]

/-- A line feed at the end adds at most a line. -/
theorem splitlinesFrom_concat_newline (line a : Text) :
    ∃ rest, splitlinesFrom line (a ++ ['\n']) = splitlinesFrom line a ++ rest := by
  induction line, a using splitlinesFrom.induct with
  | case1 line hempty => exact ⟨[line], by simp [splitlinesFrom_newline, splitlinesFrom, hempty]⟩
  | case2 line hne => exact ⟨[], by simp [splitlinesFrom_newline, splitlinesFrom, hne]⟩
  | case3 line a ih =>
    obtain ⟨rest, hrest⟩ := ih
    exact ⟨rest, by simp only [List.cons_append, splitlinesFrom, hrest]⟩
  | case4 line c a hcr hbreak ih =>
    by_cases hlone : c = '\r' ∧ a = []
    · obtain ⟨rfl, rfl⟩ := hlone
      exact ⟨[], rfl⟩
    · obtain ⟨rest, hrest⟩ := ih
      refine ⟨rest, ?_⟩
      rw [splitlinesFrom_break hbreak hcr, List.cons_append, splitlinesFrom_break hbreak, hrest,
        List.cons_append]
      intro l' hc ha
      cases a with
      | nil => exact hlone ⟨hc, rfl⟩
      | cons d a => exact hcr a hc (by rw [(List.cons.inj ha).1])
  | case5 line c a hcr hbreak ih =>
    obtain ⟨rest, hrest⟩ := ih
    have hc := eq_false_of_ne_true hbreak
    exact ⟨rest, by rw [List.cons_append, splitlinesFrom_cons hc, splitlinesFrom_cons hc, hrest]⟩

/-- Lines that are joined are the lines of the text. -/
theorem splitlines_join {ls : List Text} (h : ∀ l ∈ ls, SingleLine l ∧ l ≠ []) :
    splitlines (join ['\n'] ls) = ls := by
  induction ls with
  | nil => rfl
  | cons l ls ih =>
    obtain ⟨⟨hl, hne⟩, hls⟩ := List.forall_mem_cons.mp h
    cases ls with
    | nil => simpa [join] using splitlines_singleLine hl hne
    | cons l' ls =>
      have hjoin : join ['\n'] (l :: l' :: ls) = l ++ '\n' :: join ['\n'] (l' :: ls) := by
        simp [join, List.intercalate, List.intersperse]
      rw [hjoin, splitlines_append_newline hl, ih hls]

/-! ## An entry -/

section
variable [Unicode]

def heading (item : Json) : Text :=
  "### ".toList ++ shown ((item.field "title").orElse (item.field "id"))

def metadata (item : Json) : Text :=
  "Sensitivity: ".toList ++ shownAt item "sensitivity" ++ " | Source: ".toList ++
    shownAt item "source" ++ " | SHA-256: ".toList ++ shownAt item "content_hash"

omit [Unicode] in
/-- The lines of a body, indented. -/
def indented (body : Text) : List Text := (splitlines body).map fun line => "    ".toList ++ line

/-- What an entry contributes to a report. -/
def contribution (item : Json) (body : Text) : Text :=
  join "\n\n".toList [heading item, metadata item, provenance item, join ['\n'] (indented body)]

/-- The lines an entry should have: its own three, each with a blank one, and its body. -/
def framed (item : Json) (body : Text) : List Text :=
  [heading item, [], metadata item, [], provenance item, []] ++ indented body

/-- The fields that are put into a line as they are. -/
def inlineFields (item : Json) : List Text :=
  [shown ((item.field "title").orElse (item.field "id")), shownAt item "sensitivity",
    shownAt item "source", shownAt item "content_hash", shownOr item "job_id" "unknown",
    shownOr item "case_ref" "unknown", shownOr item "case_id" "unknown",
    shownOr item "identity_id" "unknown", shownOr item "expected_decision" "unknown",
    shownOr item "observed_outcome" "unknown"]

omit [Unicode] in
theorem singleLine_literal (s : String) (h : s.toList.all (fun c => !isLineBreak c) = true) :
    SingleLine s.toList := fun c hc => by simpa using List.all_eq_true.mp h c hc

theorem singleLine_heading (item : Json) : SingleLine (heading item) ↔
    SingleLine (shown ((item.field "title").orElse (item.field "id"))) :=
  singleLine_append_iff.trans (and_iff_right (singleLine_literal "### " (by decide +kernel)))

theorem singleLine_metadata (item : Json) : SingleLine (metadata item) ↔
    SingleLine (shownAt item "sensitivity") ∧ SingleLine (shownAt item "source") ∧
      SingleLine (shownAt item "content_hash") := by
  have hsensitivity := singleLine_literal "Sensitivity: " (by decide +kernel)
  have hsource := singleLine_literal " | Source: " (by decide +kernel)
  have hhash := singleLine_literal " | SHA-256: " (by decide +kernel)
  unfold metadata
  -- the literals are of no interest any more, and are not to be unfolded
  generalize "Sensitivity: ".toList = sensitivity at *
  generalize " | Source: ".toList = source at *
  generalize " | SHA-256: ".toList = hash at *
  simp only [singleLine_append_iff, hsensitivity, hsource, hhash, true_and, and_true, and_assoc]

theorem singleLine_provenance (item : Json) : SingleLine (provenance item) ↔
    SingleLine (shownOr item "job_id" "unknown") ∧ SingleLine (shownOr item "case_ref" "unknown") ∧
      SingleLine (shownOr item "case_id" "unknown") ∧
      SingleLine (shownOr item "identity_id" "unknown") ∧
      SingleLine (shownOr item "expected_decision" "unknown") ∧
      SingleLine (shownOr item "observed_outcome" "unknown") := by
  have hjob := singleLine_literal "Job: " (by decide +kernel)
  have hcase := singleLine_literal " | Case: " (by decide +kernel)
  have hopen := singleLine_literal " (" (by decide +kernel)
  have hidentity := singleLine_literal ") | Identity: " (by decide +kernel)
  have hexpected := singleLine_literal " | Expected: " (by decide +kernel)
  have hobserved := singleLine_literal " | Observed: " (by decide +kernel)
  unfold provenance
  generalize "Job: ".toList = job at *
  generalize " | Case: ".toList = caseRef at *
  generalize " (".toList = bracket at *
  generalize ") | Identity: ".toList = identity at *
  generalize " | Expected: ".toList = expected at *
  generalize " | Observed: ".toList = observed at *
  simp only [singleLine_append_iff, hjob, hcase, hopen, hidentity, hexpected, hobserved,
    true_and, and_true, and_assoc]

theorem singleLine_iff (item : Json) :
    SingleLine (heading item) ∧ SingleLine (metadata item) ∧ SingleLine (provenance item) ↔
      ∀ t ∈ inlineFields item, SingleLine t := by
  rw [singleLine_heading, singleLine_metadata, singleLine_provenance]
  simp only [inlineFields, List.forall_mem_cons, List.not_mem_nil, false_implies, implies_true,
    and_true, and_assoc]

omit [Unicode] in
theorem splitlines_indented (body : Text) : splitlines (join ['\n'] (indented body)) = indented body := by
  refine splitlines_join fun l hl => ?_
  obtain ⟨line, hline, rfl⟩ := List.mem_map.mp hl
  refine ⟨SingleLine.append (singleLine_literal "    " (by decide +kernel))
    (singleLine_of_mem_splitlines hline), ?_⟩
  simp

/-- The entry has the lines it should have exactly when its fields hold no line break. -/
theorem splitlines_contribution_iff (item : Json) (body : Text) :
    splitlines (contribution item body) = framed item body ↔
      ∀ t ∈ inlineFields item, SingleLine t := by
  rw [← singleLine_iff]
  constructor
  · intro h
    have hmem : ∀ l ∈ framed item body, SingleLine l := fun l hl =>
      singleLine_of_mem_splitlines (h ▸ hl)
    exact ⟨hmem _ (by simp [framed]), hmem _ (by simp [framed]), hmem _ (by simp [framed])⟩
  · rintro ⟨hheading, hmetadata, hprovenance⟩
    have hjoin : contribution item body = heading item ++ '\n' :: ([] ++ '\n' :: (metadata item ++
        '\n' :: ([] ++ '\n' :: (provenance item ++ '\n' :: ([] ++ '\n' ::
          join ['\n'] (indented body)))))) := by
      simp [contribution, join, List.intercalate, List.intersperse]
    rw [hjoin, splitlines_append_newline hheading, splitlines_append_newline singleLine_nil,
      splitlines_append_newline hmetadata, splitlines_append_newline singleLine_nil,
      splitlines_append_newline hprovenance, splitlines_append_newline singleLine_nil,
      splitlines_indented]
    rfl

/-! ## An entry in its report -/

omit [Unicode] in
theorem join_append {sep : Text} {a b : List Text} (ha : a ≠ []) (hb : b ≠ []) :
    join sep (a ++ b) = join sep a ++ sep ++ join sep b := by
  induction a with
  | nil => exact absurd rfl ha
  | cons x a ih =>
    cases a with
    | nil => simp [join, List.intercalate_cons_of_ne_nil hb]
    | cons y a =>
      have hne : y :: a ++ b ≠ [] := nofun
      have hrest := ih nofun
      simp only [join] at hrest ⊢
      rw [List.cons_append, List.intercalate_cons_of_ne_nil hne,
        List.intercalate_cons_of_ne_nil (List.cons_ne_nil y a), hrest]
      simp only [List.append_assoc]

omit [Unicode] in
/-- What is mapped one by one splits where its source does. -/
theorem exists_split_of_forall₂ {α β : Type} {R : α → β → Prop} {l : List α} {out : List β}
    (h : List.Forall₂ R l out) {a : α} (ha : a ∈ l) :
    ∃ before b after, out = before ++ b :: after ∧ R a b := by
  induction h with
  | nil => cases ha
  | @cons x y l out hxy _ ih =>
    rcases List.mem_cons.mp ha with rfl | ha
    · exact ⟨[], y, out, rfl, hxy⟩
    · obtain ⟨before, b, after, rfl, hab⟩ := ih ha
      exact ⟨y :: before, b, after, rfl, hab⟩

theorem evidenceLines_eq_ok {item : Json} {lines : List Text} (h : evidenceLines item = .ok lines) :
    ∃ body, item.field "body" = .str body ∧ lines = [heading item, metadata item, provenance item,
      join ['\n'] (indented body.toList)] := by
  unfold evidenceLines at h
  split at h
  · rename_i body hbody
    exact ⟨body, hbody, (Except.ok.inj h).symm⟩
  · cases h

/-- The evidence comes last in a report. -/
theorem markdown_eq_ok {s : Json} {m : Text} (h : markdown s = .ok m) :
    ∃ front evidence, front ≠ [] ∧ (listAt s "evidence").mapM evidenceLines = .ok evidence ∧
      m = join "\n\n".toList (front ++ evidence.flatten) ++ ['\n'] := by
  obtain ⟨evidence, hevidence, h⟩ := bind_eq_ok h
  have hm := Except.ok.inj h
  exact ⟨_ ++ [_], evidence, List.concat_ne_nil _ _, hevidence, hm.symm.trans
    (congrArg (fun lines => join "\n\n".toList lines ++ ['\n']) (List.append_cons ..))⟩

/-- The text of an entry stands in the report between line feeds. -/
theorem markdown_split {s item : Json} {m : Text} (h : markdown s = .ok m)
    (hitem : item ∈ listAt s "evidence") :
    ∃ body before after, item.field "body" = .str body ∧
      m = before ++ '\n' :: (contribution item body.toList ++ '\n' :: after) := by
  obtain ⟨front, evidence, hfront, hevidence, rfl⟩ := markdown_eq_ok h
  obtain ⟨first, pieces, last, rfl, hpieces⟩ :=
    exists_split_of_forall₂ (mapM_eq_ok hevidence) hitem
  obtain ⟨body, hbody, rfl⟩ := evidenceLines_eq_ok hpieces
  refine ⟨body, join "\n\n".toList (front ++ first.flatten) ++ ['\n'], ?_⟩
  have hne : front ++ first.flatten ≠ [] := List.append_ne_nil_of_left_ne_nil hfront _
  rw [List.flatten_append, List.flatten_cons, ← List.append_assoc]
  cases hlast : last.flatten with
  | nil =>
    refine ⟨[], hbody, ?_⟩
    rw [List.append_nil, join_append hne (List.cons_ne_nil _ _), ← contribution]
    simp
  | cons l ls =>
    refine ⟨'\n' :: (join "\n\n".toList (l :: ls) ++ ['\n']), hbody, ?_⟩
    rw [← List.append_assoc, join_append (List.append_ne_nil_of_left_ne_nil hne _)
      (List.cons_ne_nil _ _), join_append hne (List.cons_ne_nil _ _), ← contribution]
    simp

/-- The entries of a report have the lines they should have, among the lines of the report, exactly
when their fields hold no line break. -/
theorem evidence_lines_iff {s : Json} {m : Text} (h : markdown s = .ok m) :
    ∀ item ∈ listAt s "evidence", ∃ body before after, item.field "body" = .str body ∧
      splitlines m = before ++ splitlines (contribution item body.toList) ++ after ∧
      (splitlines (contribution item body.toList) = framed item body.toList ↔
        ∀ t ∈ inlineFields item, SingleLine t) := by
  intro item hitem
  obtain ⟨body, before, after, hbody, rfl⟩ := markdown_split h hitem
  obtain ⟨rest, hrest⟩ := splitlinesFrom_concat_newline [] (contribution item body.toList)
  refine ⟨body, splitlines (before ++ ['\n']), rest ++ splitlines after, hbody, ?_,
    splitlines_contribution_iff item body.toList⟩
  rw [splitlines, splitlinesFrom_append_newline, ← splitlines,
    splitlines.eq_1 (contribution item body.toList ++ _), splitlinesFrom_append_newline, hrest]
  simp only [splitlines, List.append_assoc]

end

/-! ## A forged heading -/

section
variable [Unicode] [WordTable] [Sanitizer]

/-- The record with evidence whose title goes on in a second line. -/
def exampleForged : Record :=
  let record := { Record.empty with profiles := .single ⟨"e1", "Portal", none⟩ }
  record.collect "e1" { exampleOutput "ok" with title := "Login\n# No findings" } "x1" 0

/-- The snapshot of a report about it. -/
def exampleSnapshot : Except Refusal Json := do
  let engagement ← found (exampleEngagements.engagements.get? "e1") .noRow
  snapshot engagement ⟨"e1", "Portal", none⟩ { exampleContent with evidenceIds := ["x1"] } 1
    exampleNow exampleForged

end

theorem forged_example : ∃ s m, @exampleSnapshot Unicode.ascii WordTable.ascii ⟨id⟩ = .ok s ∧
    @markdown Unicode.ascii s = .ok m ∧
    (listAt s "evidence").map (fun item =>
      (@inlineFields Unicode.ascii item).all fun t => t.all fun c => !isLineBreak c) = [false] := by
  let _ := Unicode.ascii
  let _ := WordTable.ascii
  let _ : Sanitizer := ⟨id⟩
  have hflags : (do
      let s ← exampleSnapshot
      let _ ← raise (markdown s)
      return (listAt s "evidence").map fun item =>
        (inlineFields item).all fun t => t.all fun c => !isLineBreak c) =
      Except.ok (ε := Refusal) [false] := by
    simp only [exampleSnapshot, snapshot, cleanTree_eq_cleanCued]
    decide +kernel
  obtain ⟨s, hs, hflags⟩ := bind_eq_ok hflags
  obtain ⟨m, hm, hflags⟩ := bind_eq_ok hflags
  exact ⟨s, m, hs, raise_eq_ok hm, Except.ok.inj hflags⟩

theorem evidence_lines_iff_example : ∃ s m,
    @exampleSnapshot Unicode.ascii WordTable.ascii ⟨id⟩ = .ok s ∧
      ∀ item ∈ listAt s "evidence", ∃ body before after, item.field "body" = .str body ∧
        splitlines m = before ++ splitlines (@contribution Unicode.ascii item body.toList) ++ after ∧
        (splitlines (@contribution Unicode.ascii item body.toList) =
            @framed Unicode.ascii item body.toList ↔
          ∀ t ∈ @inlineFields Unicode.ascii item, SingleLine t) := by
  let _ := Unicode.ascii
  obtain ⟨s, m, hs, hm, -⟩ := forged_example
  exact ⟨s, m, hs, evidence_lines_iff hm⟩

/-- A title of two lines puts a heading of its own into the report. -/
theorem evidence_lines_counterexample : ¬ ∀ s m,
    @exampleSnapshot Unicode.ascii WordTable.ascii ⟨id⟩ = .ok s →
    @markdown Unicode.ascii s = .ok m →
    ∀ item ∈ listAt s "evidence", ∀ body, item.field "body" = .str body →
      splitlines (@contribution Unicode.ascii item body.toList) =
        @framed Unicode.ascii item body.toList := by
  let _ := Unicode.ascii
  intro hall
  obtain ⟨s, m, hs, hm, hflags⟩ := forged_example
  cases hlist : listAt s "evidence" with
  | nil => simp [hlist] at hflags
  | cons item items =>
    have hitem : item ∈ listAt s "evidence" := hlist ▸ List.mem_cons_self ..
    obtain ⟨body, -, -, hbody, -⟩ := markdown_split hm hitem
    have hlines := hall s m hs hm item hitem body hbody
    have hsingle := (splitlines_contribution_iff item body.toList).mp hlines
    have hflag : ((inlineFields item).all fun t => t.all fun c => !isLineBreak c) = true := by
      simpa only [List.all_eq_true, Bool.not_eq_true', SingleLine] using hsingle
    rw [hlist, List.map_cons, hflag] at hflags
    simp at hflags

end VardrMap.Deliverables
