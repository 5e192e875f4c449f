import VardrMap.Imports

/-!
# What can go wrong after the commit

The rows of an import are stored when the notification is put together. Whether a row is
notable is decided by its severity in lower case, while the most severe one is looked up by
its severity as it was reported, so that a notable row in another letter case raises.
-/
namespace VardrMap.Imports
open Lib Assets Parsers

/-- The row's severity is one of the five, as it stands. -/
theorem severityIndex_isOk_iff {row : ParsedScanItem} :
    (∃ n, severityIndex row = .ok n) ↔ row.severity ∈ severities := by
  unfold severityIndex
  cases h : severities.idxOf? row.severity with
  | none => simpa using List.idxOf?_eq_none_iff.mp h
  | some n =>
    have hmem : row.severity ∈ severities := by
      by_contra hno
      rw [List.idxOf?_eq_none_iff.mpr hno] at h
      cases h
    simp [hmem]

/-- The highest row is found when every row has an index. -/
theorem topRow_isOk_iff {rows : List ParsedScanItem} :
    (∃ top, topRow rows = .ok top) ↔ ∀ row ∈ rows, row.severity ∈ severities := by
  have hindices : (∃ top, topRow rows = .ok top) ↔
      ∃ l, rows.mapM severityIndex = .ok l ∧ ∀ n ∈ l, True := by
    unfold topRow
    cases rows.mapM severityIndex <;> simp [bind, Except.bind, pure, Except.pure]
  rw [hindices, exists_mapM_iff]
  simp only [and_true, severityIndex_isOk_iff]

variable [Unicode]

/-- The five severities are in lower case. -/
theorem lower_severity {s : Text} (h : s ∈ severities) : Unicode.lower s = s := by
  have hall : ∀ s ∈ severities, (∀ c ∈ s, isAscii c = true) ∧ s.map Char.toLower = s := by
    simp [severities, isAscii]
  rw [Unicode.lower_ascii s (hall s h).1, (hall s h).2]

/-- A notable severity is one of the five exactly when it is in lower case. -/
theorem mem_severities_iff {severity minimum : Text}
    (h : severityMeetsThreshold severity minimum = true) :
    severity ∈ severities ↔ Unicode.lower severity = severity := by
  refine ⟨lower_severity, fun hlower => ?_⟩
  by_contra hno
  unfold severityMeetsThreshold at h
  rw [hlower, List.idxOf?_eq_none_iff.mpr hno] at h
  simp at h

/-- Nobody is notified without a webhook. -/
theorem afterCommit_of_no_webhook {tool : ToolType} {name : Text} {user : Option Subscriber}
    {imported : Imported} (h : ∀ u ∈ user, u.webhook.isSome = false) :
    afterCommit tool name user imported = .ok none := by
  unfold afterCommit
  cases user with
  | none => rfl
  | some u =>
    have hnone : u.webhook = none := by simpa using h u rfl
    rw [Option.bind_some, hnone]

/-- Only scanners are notified of by their rows. -/
theorem afterCommit_of_recon {tool : ToolType} {name : Text} {user : Option Subscriber}
    {imported : Imported} (h : tool ≠ .nuclei ∧ tool ≠ .dalfox) :
    ∃ notice, afterCommit tool name user imported = .ok notice := by
  unfold afterCommit
  split
  · split
    · exact ⟨_, rfl⟩
    · simp [h.1, h.2]
  · exact ⟨_, rfl⟩

/-- With a webhook, the steps after the commit of a scan succeed when the most severe notable
row is found. -/
theorem afterCommit_isOk_iff_topRow {tool : ToolType} {name : Text} {u : Subscriber}
    {imported : Imported} (hcount : imported.importedCount = imported.candidates.length)
    (htool : tool = .nuclei ∨ tool = .dalfox) (hu : u.webhook.isSome = true) :
    (∃ notice, afterCommit tool name (some u) imported = .ok notice) ↔
      ∃ top, topRow (imported.candidates.filter fun row =>
        severityMeetsThreshold row.severity u.threshold) = .ok top := by
  obtain ⟨url, hurl⟩ := Option.isSome_iff_exists.mp hu
  have hnot : tool ≠ .httpx := by rcases htool with rfl | rfl <;> decide
  have hscan : (decide (tool = .nuclei) || decide (tool = .dalfox)) = true := by simpa using htool
  unfold afterCommit
  rw [Option.bind_some, hurl]
  simp only [hnot, if_false, hscan, Bool.true_and]
  cases hc : imported.candidates with
  | nil => simp [hcount, hc, topRow, pure, Except.pure, bind, Except.bind]
  | cons row rows =>
    have hne : (imported.importedCount != 0) = true := by simp [hcount, hc]
    rw [if_pos hne]
    cases topRow ((row :: rows).filter fun row => severityMeetsThreshold row.severity u.threshold) <;>
      simp [bind, Except.bind, pure, Except.pure]

/-- The steps after the commit of a scan succeed when every notable row is in lower case. -/
theorem afterCommit_isOk_iff {tool : ToolType} {name : Text} {user : Option Subscriber}
    {imported : Imported} (hcount : imported.importedCount = imported.candidates.length)
    (htool : tool = .nuclei ∨ tool = .dalfox) :
    (∃ notice, afterCommit tool name user imported = .ok notice) ↔
      ∀ u ∈ user, u.webhook.isSome = true → ∀ row ∈ imported.candidates,
        severityMeetsThreshold row.severity u.threshold = true →
          Unicode.lower row.severity = row.severity := by
  by_cases hnone : ∀ u ∈ user, u.webhook.isSome = false
  · simp only [afterCommit_of_no_webhook hnone]
    exact iff_of_true ⟨_, rfl⟩ fun u hu hsome => absurd hsome (by simp [hnone u hu])
  · obtain ⟨u, rfl, hu⟩ : ∃ u, user = some u ∧ u.webhook.isSome = true := by
      simpa [Option.isSome_iff_ne_none] using hnone
    rw [afterCommit_isOk_iff_topRow hcount htool hu, topRow_isOk_iff]
    simp only [Option.mem_def, Option.some.injEq, forall_eq', hu, true_implies, List.mem_filter,
      and_imp]
    exact forall_congr' fun row => forall_congr' fun _ => forall_congr' fun hmeets =>
      mem_severities_iff hmeets

/-! ## What an accepted file can carry -/

variable [Sanitizer]

omit [Sanitizer] in
/-- The rows of a scan to notify of are the ones it has stored. -/
theorem importScan_eq_ok {c : Context} {source : String} {new : List ParsedScanItem}
    {newCount : ℕ} {s : Store} {imported : Imported}
    (h : importScan c source new newCount s = .ok imported) :
    imported.candidates = new ∧ imported.importedCount = new.length := by
  obtain ⟨⟨assets, added⟩, -, h⟩ := bind_eq_ok h
  cases h
  exact ⟨rfl, rfl⟩

omit [Sanitizer] in
/-- A word of a vocabulary that has its default. -/
theorem wordOf_mem {words : List Text} {default : Text} (h : default ∈ words) (value : Json) :
    wordOf words default value ∈ words := by
  unfold wordOf
  dsimp only
  split
  · rename_i hword
    simpa using hword
  · exact h

omit [Sanitizer] in
/-- Only matches that are rows of the file are new. -/
theorem mem_of_mem_dedupScan {s : ParsedScanItem} {seen : List (Text × Text × Text)}
    {rows : List ParsedScanItem} (h : s ∈ dedupScan seen rows) : s ∈ rows := by
  induction rows generalizing seen with
  | nil => exact h
  | cons row rows ih =>
    unfold dedupScan at h
    split at h
    · exact List.mem_cons_of_mem _ (ih h)
    · rcases List.mem_cons.mp h with rfl | h
      · exact List.mem_cons_self
      · exact List.mem_cons_of_mem _ (ih h)

/-- Every import that is committed is reported as a success, exactly when no nuclei row that
passes the threshold of the user's webhook has a severity with upper case letters in it. -/
theorem afterCommit_total_iff {c : Context} {tool : ToolType} {items : List Item} {s : Store}
    {imported : Imported} (himport : importResults c tool items s = .ok imported) (name : Text)
    (user : Option Subscriber) :
    (∃ notice, afterCommit tool name user imported = .ok notice) ↔
      (tool = .nuclei → ∀ u ∈ user, u.webhook.isSome = true → ∀ item ∈ items, ∀ row,
        parseNucleiItem c.programId item = .ok row →
          severityMeetsThreshold row.severity u.threshold = true →
            Unicode.lower row.severity = row.severity) := by
  cases tool with
  | ffuf => exact iff_of_true (afterCommit_of_recon (by decide)) (by simp)
  | httpx => exact iff_of_true (afterCommit_of_recon (by decide)) (by simp)
  | katana => exact iff_of_true (afterCommit_of_recon (by decide)) (by simp)
  | gau => exact iff_of_true (afterCommit_of_recon (by decide)) (by simp)
  | dalfox =>
    obtain ⟨hnew, hcount⟩ := importScan_eq_ok himport
    rw [afterCommit_isOk_iff (by rw [hcount, hnew]) (.inr rfl)]
    refine iff_of_true (fun u _ _ row hrow _ => ?_) (by simp)
    rw [hnew] at hrow
    obtain ⟨item, -, rfl⟩ := List.mem_map.mp (mem_of_mem_dedupScan hrow)
    exact lower_severity (wordOf_mem (by decide) _)
  | nuclei =>
    obtain ⟨rows, hrows, himport⟩ := bind_eq_ok himport
    obtain ⟨hnew, hcount⟩ := importScan_eq_ok himport
    rw [afterCommit_isOk_iff (by rw [hcount, hnew]) (.inl rfl), hnew]
    have hmem : ∀ row, row ∈ rows ↔ ∃ item ∈ items, parseNucleiItem c.programId item = .ok row :=
      fun row => mem_mapM_iff hrows
    simp only [true_implies, hmem]
    exact forall_congr' fun u => forall_congr' fun _ => forall_congr' fun _ =>
      ⟨fun h item hitem row hrow => h row ⟨item, hitem, hrow⟩,
        fun h row ⟨item, hitem, hrow⟩ => h item hitem row hrow⟩

omit [Unicode] [Sanitizer] in
/-- A severity reported as `High` is notable, and has no index. -/
theorem not_afterCommit_total : ¬∀ (c : Context) (tool : ToolType) (items : List Item)
    (s : Store) (imported : Imported) (name : Text) (user : Option Subscriber),
      @importResults Unicode.ascii ⟨id⟩ c tool items s = .ok imported →
        ∃ notice, @afterCommit Unicode.ascii tool name user imported = .ok notice := by
  let _ := Unicode.ascii
  let _ : Sanitizer := ⟨id⟩
  intro h
  have himport : ∃ imported, importResults ⟨"e1", none, 0, fun n => Nat.repr n⟩ .nuclei
      [[("info", .obj [("severity", .str "High")])]] ⟨[], [], []⟩ = .ok imported ∧
        afterCommit .nuclei "Acme".toList (some ⟨some "https://hook".toList, none⟩) imported =
          .error .valueError := by
    refine ⟨_, rfl, ?_⟩
    decide +kernel
  obtain ⟨imported, himport, hraise⟩ := himport
  obtain ⟨notice, hnotice⟩ := h _ _ _ _ _ "Acme".toList
    (some ⟨some "https://hook".toList, none⟩) himport
  rw [hraise] at hnotice
  cases hnotice

omit [Unicode] [Sanitizer] in
/-- The same row with its severity in lower case. -/
theorem afterCommit_total_iff_example : ∃ imported notice,
    @importResults Unicode.ascii ⟨id⟩ ⟨"e1", none, 0, fun n => Nat.repr n⟩ .nuclei
        [[("info", .obj [("severity", .str "high")])]] ⟨[], [], []⟩ = .ok imported ∧
      @afterCommit Unicode.ascii .nuclei "Acme".toList
        (some ⟨some "https://hook".toList, none⟩) imported = .ok notice := by
  let _ := Unicode.ascii
  let _ : Sanitizer := ⟨id⟩
  have himport : ∃ imported, importResults ⟨"e1", none, 0, fun n => Nat.repr n⟩ .nuclei
      [[("info", .obj [("severity", .str "high")])]] ⟨[], [], []⟩ = .ok imported := ⟨_, rfl⟩
  obtain ⟨imported, himport⟩ := himport
  obtain ⟨notice, hnotice⟩ := (afterCommit_total_iff himport "Acme".toList
    (some ⟨some "https://hook".toList, none⟩)).mpr (by
      intro _ u _ _ item hitem row hrow _
      obtain rfl := List.mem_singleton.mp hitem
      have hseverity : parseNucleiItem "e1" [("info", .obj [("severity", .str "high")])] =
          .ok row := hrow
      cases hseverity
      decide +kernel)
  exact ⟨imported, notice, himport, hnotice⟩

end VardrMap.Imports
