import VardrMap.ScopeImport
import VardrMap.Changes.Engagements

/-!
# What an import commits

The preview and the commit classify alike, a commit adds the pairs that are new and nothing else,
and the same export again adds nothing. The rows that are stored are those of the import of
parsed rows.
-/
namespace VardrMap.ScopeImport
open Lib Parsers Deliverables

/-! ## Classification -/

/-- Every item has a key. -/
def ParsedItem.key? (i : ParsedItem) : Option (String × String) := some i.key

theorem classify_fst (existing seen : List (String × String)) (parsed : List ParsedItem) :
    (classify existing seen parsed).1 = dedupBy ParsedItem.key? (seen ++ existing) parsed := by
  induction parsed generalizing seen with
  | nil => rfl
  | cons item parsed ih =>
    have hkey : item.key? = some item.key := rfl
    rw [classify]
    by_cases h : item.key ∈ seen ++ existing
    · have hseen : (existing.contains item.key || seen.contains item.key) = true := by
        simpa [or_comm] using h
      rw [if_pos hseen, dedupBy_cons_of_mem hkey h]
      exact ih seen
    · have hunseen : ¬ (existing.contains item.key || seen.contains item.key) = true := by
        simpa [and_comm] using h
      rw [if_neg hunseen, dedupBy_cons_of_notMem hkey h]
      exact congrArg (item :: ·) (ih (item.key :: seen))

/-- The keys of the new items are those of the export that are not stored, each once. -/
theorem newItems_keys (existing : List (String × String)) (parsed : List ParsedItem) :
    ((classify existing [] parsed).1.map ParsedItem.key).Nodup ∧
      ∀ k, k ∈ (classify existing [] parsed).1.map ParsedItem.key ↔
        k ∈ parsed.map ParsedItem.key ∧ k ∉ existing := by
  rw [classify_fst, List.nil_append]
  have hdedup : ((dedupBy ParsedItem.key? existing parsed).filterMap ParsedItem.key?).Nodup ∧ _ :=
    dedupBy_keys existing parsed
  obtain ⟨hnodup, hunseen⟩ := hdedup
  have hkeys : ∀ l : List ParsedItem, l.filterMap ParsedItem.key? = l.map ParsedItem.key := fun l =>
    congrFun (List.filterMap_eq_map (f := ParsedItem.key)) l
  rw [hkeys] at hnodup hunseen
  refine ⟨hnodup, fun k => ⟨fun hk => ⟨?_, hunseen k hk⟩, fun ⟨hk, hnew⟩ => ?_⟩⟩
  · exact ((dedupBy_sublist existing parsed).map ParsedItem.key).subset hk
  · obtain ⟨i, hi, rfl⟩ := List.mem_map.mp hk
    have hunseen' : ∀ k ∈ i.key?, k ∉ existing := fun k hk => Option.some.inj hk ▸ hnew
    obtain ⟨j, hj, hkey⟩ := exists_mem_dedupBy hi hunseen'
    exact List.mem_map.mpr ⟨j, hj, Option.some.inj hkey⟩

/-- Nothing is new when every pair of the export is stored. -/
theorem newItems_eq_nil {existing : List (String × String)} {parsed : List ParsedItem}
    (h : ∀ i ∈ parsed, i.key ∈ existing) : (classify existing [] parsed).1 = [] := by
  rw [classify_fst, List.nil_append]
  exact dedupBy_eq_nil_iff.mpr fun i hi => ⟨i.key, h i hi, rfl⟩

/-- New items and duplicates are the parsed items. -/
theorem classify_perm (existing seen : List (String × String)) (parsed : List ParsedItem) :
    ((classify existing seen parsed).1 ++ (classify existing seen parsed).2).Perm parsed := by
  induction parsed generalizing seen with
  | nil => exact .refl _
  | cons item parsed ih =>
    rw [classify]
    split
    · exact List.perm_middle.trans ((ih seen).cons item)
    · exact (ih (item.key :: seen)).cons item

/-- The rows of the new items are the new ones among the rows of all items. -/
theorem newRows_eq (newId : ParsedItem → String) (existing seen : List (String × String))
    (parsed : List ParsedItem) :
    newRows (seen ++ existing) (parsed.map (ParsedItem.row newId)) =
      (classify existing seen parsed).1.map (ParsedItem.row newId) := by
  induction parsed generalizing seen with
  | nil => rfl
  | cons item parsed ih =>
    rw [List.map_cons, newRows, classify]
    have hseen : (seen ++ existing).contains
        ((item.row newId).scopeType, (item.row newId).value) =
          (existing.contains item.key || seen.contains item.key) := by
      rw [List.contains_append, Bool.or_comm]
      rfl
    by_cases h : (existing.contains item.key || seen.contains item.key) = true
    · rw [if_pos h, if_pos (hseen.trans h)]
      exact ih seen
    · rw [if_neg h, if_neg fun h' => h (hseen.symm.trans h')]
      exact congrArg (item.row newId :: ·) (ih (item.key :: seen))

/-! ## Storing -/

/-- The row of a new item. -/
def ParsedItem.stored (programId : String) (newId : ParsedItem → String) (i : ParsedItem) :
    ScopeItem :=
  ⟨newId i, programId, i.scopeType, i.value, some i.kind⟩

variable [Unicode]

/-- Added rows come last. -/
theorem addRows_rows {programId : String} {rows : List ImportRow} {db db' : Db}
    (h : addRows programId rows db = .ok db') :
    db'.engagements = db.engagements ∧ db'.scopeItems.rows = db.scopeItems.rows ++
      rows.map fun r => ⟨r.id, programId, r.scopeType, r.value, r.kind⟩ := by
  induction rows generalizing db with
  | nil =>
    obtain rfl := Except.ok.inj h
    exact ⟨rfl, (List.append_nil _).symm⟩
  | cons row rows ih =>
    obtain ⟨db₁, hadd, h⟩ := bind_eq_ok h
    obtain ⟨scopeItems, -, hinsert, rfl⟩ := addScopeItem_eq_ok hadd
    obtain ⟨hengagements, hrows⟩ := ih h
    refine ⟨hengagements, ?_⟩
    rw [hrows, List.map_cons]
    exact (congrArg (· ++ _) (Table.rows_of_insert hinsert)).trans (List.append_assoc ..)

theorem storeItems_eq_ok {db db' : Db} {engagement : Engagement} {newId : ParsedItem → String}
    {newItems : List ParsedItem} (h : storeItems db engagement newId newItems = .ok db') :
    db'.scopeItems.rows =
        db.scopeItems.rows ++ newItems.map (ParsedItem.stored engagement.id newId) ∧
      (newItems = [] → db' = db) ∧
      (newItems ≠ [] → db'.engagements = db.engagements.put engagement.advance) := by
  rw [storeItems] at h
  by_cases hempty : newItems = []
  · subst hempty
    obtain rfl := Except.ok.inj h
    exact ⟨(List.append_nil _).symm, fun _ => rfl, fun hne => absurd rfl hne⟩
  · rw [if_neg (by simpa using hempty)] at h
    obtain ⟨hengagements, hrows⟩ := addRows_rows h
    rw [List.map_map] at hrows
    exact ⟨hrows, fun he => absurd he hempty, fun _ => hengagements⟩

omit [Unicode] in
/-- The pairs in scope after rows of an engagement were added. -/
theorem scopeKeys_append {db db' : Db} {programId : String} {newId : ParsedItem → String}
    {newItems : List ParsedItem} (h : db'.scopeItems.rows =
      db.scopeItems.rows ++ newItems.map (ParsedItem.stored programId newId)) :
    scopeKeys db' programId = scopeKeys db programId ++ newItems.map ParsedItem.key := by
  rw [scopeKeys, h, List.filter_append, List.map_append]
  congr 1
  rw [List.filter_eq_self.mpr, List.map_map]
  · rfl
  · intro r hr
    obtain ⟨i, -, rfl⟩ := List.mem_map.mp hr
    exact beq_self_eq_true programId

omit [Unicode] in
/-- Other engagements have the pairs that they had. -/
theorem scopeKeys_append_of_ne {db db' : Db} {programId id : String}
    {newId : ParsedItem → String} {newItems : List ParsedItem} (h : db'.scopeItems.rows =
      db.scopeItems.rows ++ newItems.map (ParsedItem.stored programId newId))
    (hne : id ≠ programId) : scopeKeys db' id = scopeKeys db id := by
  have hnone : (newItems.map (ParsedItem.stored programId newId)).filter
      (fun r => r.programId == id) = [] := by
    refine List.filter_eq_nil_iff.mpr fun r hr => ?_
    obtain ⟨i, -, rfl⟩ := List.mem_map.mp hr
    simpa [ParsedItem.stored] using hne.symm
  rw [scopeKeys, scopeKeys, h, List.filter_append, hnone, List.append_nil]

/-- Identifiers that were never handed out, one for each item. -/
structure Fresh (db : Db) (newId : ParsedItem → String) (items : List ParsedItem) : Prop where
  nodup : (items.map newId).Nodup
  unused : ∀ i ∈ items, newId i ∉ db.ids ∧ newId i ∉ db.scopeItems.rows.map ScopeItem.id
  trimmed : ∀ i ∈ items, Text.strip (newId i).toList = (newId i).toList

/-- Rows under fresh identifiers are stored. -/
theorem exists_addRows {db : Db} {programId : String} {newId : ParsedItem → String}
    {items : List ParsedItem} (h : Fresh db newId items) :
    ∃ db', addRows programId (items.map (ParsedItem.row newId)) db = .ok db' := by
  induction items generalizing db with
  | nil => exact ⟨db, rfl⟩
  | cons i items ih =>
    obtain ⟨hnodup, hunused, htrimmed⟩ := h
    rw [List.map_cons, List.nodup_cons] at hnodup
    obtain ⟨hids, hrows⟩ := hunused i (List.mem_cons_self ..)
    have hmint : mint db (newId i) = .ok () := by
      simp [mint, ensure, hids, htrimmed i (List.mem_cons_self ..)]
    have hnone : db.scopeItems.get? (newId i) = none :=
      Table.get?_eq_none.mpr fun r hr hk => hrows (List.mem_map.mpr ⟨r, hr, hk⟩)
    obtain ⟨scopeItems, hinsert⟩ := Table.exists_insert
      (r := (⟨newId i, programId, i.scopeType, i.value, some i.kind⟩ : ScopeItem)) hnone
    have hadd : db.addScopeItem ⟨newId i, programId, i.scopeType, i.value, some i.kind⟩ =
        .ok { db.minted (newId i) with scopeItems } := by
      rw [Db.addScopeItem, hmint]
      simp only [bind, Except.bind, hinsert, found]
      rfl
    have hfresh : Fresh { db.minted (newId i) with scopeItems } newId items := by
      refine ⟨hnodup.2, fun j hj => ?_, fun j hj => htrimmed j (List.mem_cons_of_mem _ hj)⟩
      have hne : newId j ≠ newId i := fun heq =>
        hnodup.1 (heq ▸ List.mem_map_of_mem hj)
      obtain ⟨hids', hrows'⟩ := hunused j (List.mem_cons_of_mem _ hj)
      refine ⟨fun hmem => ?_, fun hmem => ?_⟩
      · exact hids' ((List.mem_cons.mp hmem).resolve_left hne)
      · rw [Table.rows_of_insert hinsert, List.map_append, List.mem_append] at hmem
        exact hmem.elim hrows' fun hlast => hne (List.mem_singleton.mp hlast)
    obtain ⟨db', hdb'⟩ := ih hfresh
    refine ⟨db', ?_⟩
    rw [List.map_cons, addRows]
    exact bind_eq_ok_iff.mpr ⟨_, hadd, hdb'⟩

theorem exists_storeItems {db : Db} {engagement : Engagement} {newId : ParsedItem → String}
    {items : List ParsedItem} (h : Fresh db newId items) :
    ∃ db', storeItems db engagement newId items = .ok db' := by
  rw [storeItems]
  split
  · exact ⟨db, rfl⟩
  · exact exists_addRows ⟨h.nodup, h.unused, h.trimmed⟩

/-! ## The whole import -/

variable [WordTable] [Sanitizer] {p : Platform} {request : HttpRequest} {programId : String}
  {payload : ScopeImportRequest} {newId : ParsedItem → String} {db db' : Db}
  {response : ScopeImportResponse}

/-- What an import that is not refused has read and stored. -/
theorem importExport_eq_ok
    (h : importExport p request programId payload newId db = .ok (db', response)) :
    ∃ user engagement parsed skipped, getCurrentUser p.identity db request = .ok user ∧
      writableEngagement db programId user = .ok engagement ∧
      parseHackeroneScope payload.csv = .ok (parsed, skipped) ∧
      storeItems db engagement newId
        (if payload.commit then (classify (scopeKeys db programId) [] parsed).1 else []) = .ok db' ∧
      response = respond payload
        (if payload.commit then (classify (scopeKeys db programId) [] parsed).1.length else 0)
        parsed (classify (scopeKeys db programId) [] parsed).1
        (classify (scopeKeys db programId) [] parsed).2 skipped := by
  obtain ⟨user, huser, h⟩ := bind_eq_ok h
  obtain ⟨engagement, hengagement, h⟩ := bind_eq_ok h
  obtain ⟨⟨parsed, skipped⟩, hparsed, h⟩ := bind_eq_ok h
  obtain ⟨stored, hstored, h⟩ := bind_eq_ok h
  obtain ⟨rfl, rfl⟩ := Prod.mk.inj (Except.ok.inj h)
  exact ⟨user, engagement, parsed, skipped, huser, hengagement, hparsed, hstored, rfl⟩

/-- An import of an export is the import of its rows. -/
theorem importScope_of_importExport
    (h : importExport p request programId payload newId db = .ok (db', response)) :
    ∃ parsed skipped, parseHackeroneScope payload.csv = .ok (parsed, skipped) ∧
      importScope p request programId (parsed.map (ParsedItem.row newId)) payload.commit db =
        .ok (db', .stored) := by
  obtain ⟨user, engagement, parsed, skipped, huser, hengagement, hparsed, hstored, -⟩ :=
    importExport_eq_ok h
  obtain ⟨-, hid⟩ := writableEngagement_stored hengagement
  refine ⟨parsed, skipped, hparsed, bind_eq_ok_iff.mpr ⟨user, huser,
    bind_eq_ok_iff.mpr ⟨engagement, hengagement, ?_⟩⟩⟩
  have hrows := newRows_eq newId (scopeKeys db programId) [] parsed
  rw [List.nil_append, scopeKeys] at hrows
  simp only [hrows]
  rw [storeItems, hid] at hstored
  cases hcommit : payload.commit with
  | false =>
    rw [hcommit] at hstored
    obtain rfl := Except.ok.inj hstored
    rfl
  | true =>
    rw [hcommit, if_pos rfl] at hstored
    split at hstored
    · rename_i hempty
      obtain rfl := Except.ok.inj hstored
      rw [← scopeKeys, List.isEmpty_iff.mp hempty]
      rfl
    · rename_i hne
      rw [← scopeKeys]
      have hne' : ¬ ((classify (scopeKeys db programId) [] parsed).1.map
          (ParsedItem.row newId)).isEmpty = true := by
        simpa using hne
      simp only [Bool.not_true, Bool.false_or, hne']
      exact bind_eq_ok_iff.mpr ⟨db', hstored, rfl⟩

/-- A preview writes nothing. -/
theorem preview_keeps (hpreview : payload.commit = false)
    (h : importExport p request programId payload newId db = .ok (db', response)) : db' = db := by
  obtain ⟨user, engagement, parsed, skipped, -, -, -, hstored, -⟩ := importExport_eq_ok h
  rw [hpreview] at hstored
  exact (storeItems_eq_ok hstored).2.1 rfl

/-- Imports of one export on one database report the same items. -/
theorem report_eq {payload' : ScopeImportRequest} {newId' : ParsedItem → String} {db'' : Db}
    {response' : ScopeImportResponse} (hcsv : payload'.csv = payload.csv)
    (h : importExport p request programId payload newId db = .ok (db', response))
    (h' : importExport p request programId payload' newId' db = .ok (db'', response')) :
    response'.newItems = response.newItems ∧ response'.duplicates = response.duplicates ∧
      response'.skipped = response.skipped := by
  obtain ⟨user, engagement, parsed, skipped, -, -, hparsed, -, rfl⟩ := importExport_eq_ok h
  obtain ⟨user', engagement', parsed', skipped', -, -, hparsed', -, rfl⟩ := importExport_eq_ok h'
  rw [hcsv, hparsed] at hparsed'
  obtain ⟨rfl, rfl⟩ := Prod.mk.inj (Except.ok.inj hparsed')
  exact ⟨rfl, rfl, rfl⟩

/-- What can be previewed can be committed, under fresh identifiers. -/
theorem exists_commit
    (h : importExport p request programId payload newId db = .ok (db', response))
    {newId' : ParsedItem → String} (hfresh : Fresh db newId' response.newItems) :
    ∃ db'' response', importExport p request programId { payload with commit := true } newId' db =
      .ok (db'', response') := by
  obtain ⟨user, engagement, parsed, skipped, huser, hengagement, hparsed, -, rfl⟩ :=
    importExport_eq_ok h
  obtain ⟨db'', hstored⟩ : ∃ db'', storeItems db engagement newId'
      (classify (scopeKeys db programId) [] parsed).1 = .ok db'' := exists_storeItems hfresh
  refine ⟨db'', _, bind_eq_ok_iff.mpr ⟨user, huser, bind_eq_ok_iff.mpr ⟨engagement, hengagement,
    bind_eq_ok_iff.mpr ⟨(parsed, skipped), hparsed, bind_eq_ok_iff.mpr ⟨db'', hstored, rfl⟩⟩⟩⟩⟩

/-- What cannot be previewed cannot be committed, for the same reason. -/
theorem commit_refused {e : Refusal} (hpreview : payload.commit = false)
    (h : importExport p request programId payload newId db = .error e)
    (newId' : ParsedItem → String) :
    importExport p request programId { payload with commit := true } newId' db = .error e := by
  rw [importExport] at h ⊢
  cases huser : getCurrentUser p.identity db request with
  | error e' =>
    rw [huser] at h
    exact h
  | ok user =>
    cases hengagement : writableEngagement db programId user with
    | error e' =>
      simp only [huser, hengagement, bind, Except.bind] at h ⊢
      exact h
    | ok engagement =>
      cases hparsed : parseHackeroneScope payload.csv with
      | error e' =>
        simp only [huser, hengagement, hparsed, bind, Except.bind] at h ⊢
        exact h
      | ok r =>
        simp only [huser, hengagement, hparsed, hpreview, bind, Except.bind, storeItems] at h
        cases h

/-- A commit adds the pairs of the export that are new, each once, and nothing else. -/
theorem commit_adds (hcommit : payload.commit = true)
    (h : importExport p request programId payload newId db = .ok (db', response)) :
    ∃ parsed skipped, parseHackeroneScope payload.csv = .ok (parsed, skipped) ∧
      db'.scopeItems.rows =
        db.scopeItems.rows ++ response.newItems.map (ParsedItem.stored programId newId) ∧
      (response.newItems.map ParsedItem.key).Nodup ∧
      ∀ k, k ∈ response.newItems.map ParsedItem.key ↔
        k ∈ parsed.map ParsedItem.key ∧ k ∉ scopeKeys db programId := by
  obtain ⟨user, engagement, parsed, skipped, -, hengagement, hparsed, hstored, rfl⟩ :=
    importExport_eq_ok h
  rw [if_pos hcommit] at hstored
  obtain ⟨-, hid⟩ := writableEngagement_stored hengagement
  obtain ⟨hrows, -, -⟩ := storeItems_eq_ok hstored
  rw [hid] at hrows
  obtain ⟨hnodup, hkeys⟩ := newItems_keys (scopeKeys db programId) parsed
  exact ⟨parsed, skipped, hparsed, hrows, hnodup, hkeys⟩

/-- The same export again adds nothing, and leaves the revision alone. -/
theorem again_keeps (hcommit : payload.commit = true)
    (h : importExport p request programId payload newId db = .ok (db', response))
    {request' : HttpRequest} {newId' : ParsedItem → String} {db'' : Db}
    {response' : ScopeImportResponse}
    (h' : importExport p request' programId payload newId' db' = .ok (db'', response')) :
    db'' = db' ∧ response'.newItems = [] := by
  obtain ⟨parsed, skipped, hparsed, hrows, -, hkeys⟩ := commit_adds hcommit h
  obtain ⟨user', engagement', parsed', skipped', -, -, hparsed', hstored', rfl⟩ :=
    importExport_eq_ok h'
  rw [hparsed] at hparsed'
  obtain ⟨rfl, rfl⟩ := Prod.mk.inj (Except.ok.inj hparsed')
  have hall : ∀ i ∈ parsed, i.key ∈ scopeKeys db' programId := by
    intro i hi
    rw [scopeKeys_append hrows, List.mem_append]
    by_cases hstored : i.key ∈ scopeKeys db programId
    · exact .inl hstored
    · exact .inr ((hkeys i.key).mpr ⟨List.mem_map_of_mem hi, hstored⟩)
  have hnil := newItems_eq_nil hall
  rw [if_pos hcommit] at hstored'
  exact ⟨(storeItems_eq_ok hstored').2.1 hnil, hnil⟩

end VardrMap.ScopeImport
