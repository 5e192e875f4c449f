import VardrMap.Imports.Probes
import VardrMap.Lib.Dedup

/-!
# Importing a file twice

Each tool has a key of its own, and an import stores no second row under a key that the
stored rows of its source have. So a file that was imported adds nothing when it is imported
again, unless one of its rows has no key to be recognised by.
-/
namespace VardrMap.Imports
open Lib Assets Parsers
variable [Unicode]

/-! ## The key of each importer -/

/-- What a row is recognised by: its URL, its host, the host it was probed under, or the site,
name and tier of a match. -/
inductive RowKey where
  | url (u : Text)
  | host (h : Text)
  | probed (h : Text)
  | issue (k : Text × Text × Text)
  deriving DecidableEq

/-- The key of `_dedup_recon`: the URL, else the host. A row with neither has none. -/
def reconKey (r : ReconItem) : Option RowKey :=
  if !r.url.isEmpty then some (.url r.url)
  else if r.host.isEmpty then none else some (.host r.host)

/-- The key of `_upsert_recon_httpx`. -/
def probedKey (r : ReconItem) : Option RowKey :=
  if hostKey r = [] then none else some (.probed (hostKey r))

/-- The key of `_dedup_scan_items`: every match has one. -/
def scanKey (s : ParsedScanItem) : Option RowKey := some (.issue (dalfoxKey s))

/-- A stored row is recognised by anything but its host: the hosts of one upload are compared
with each other only. -/
def RowKey.Recognised : RowKey → Prop
  | host _ => False
  | _ => True

instance : DecidablePred RowKey.Recognised
  | .host _ => isFalse id
  | .url _ | .probed _ | .issue _ => isTrue trivial

/-- The key of a row in the importer of its tool. -/
def rowKey (tool : ToolType) (r : ReconItem) : Option RowKey :=
  if tool = .httpx then probedKey r else reconKey r

/-- The keys of the rows of one engagement and source. -/
def reconKeys (programId : String) (tool : ToolType) (rows : List ReconItem) :
    List (Option RowKey) :=
  (rows.filter fun r => r.programId == programId && r.source == tool.text).map (rowKey tool)

/-- The keys of the matches of one engagement and source. -/
def scanKeys (programId : String) (tool : ToolType) (rows : List ParsedScanItem) :
    List (Option RowKey) :=
  (rows.filter fun r => r.programId == programId && r.source == tool.text).map scanKey

/-- The keys that are stored for a tool. -/
def storedRowKeys (programId : String) (tool : ToolType) (s : Store) : List (Option RowKey) :=
  match tool with
  | .nuclei | .dalfox => scanKeys programId tool (s.scan.map Stored.row)
  | _ => reconKeys programId tool (s.recon.map Stored.row)

/-- How many rows are stored. -/
def rowCount (s : Store) : ℕ := s.recon.length + s.scan.length

omit [Unicode] in
theorem dedupRecon_eq (urls hosts : List Text) (rows : List ReconItem) :
    dedupRecon urls hosts rows = dedupBy reconKey (urls.map .url ++ hosts.map .host) rows := by
  induction rows generalizing urls hosts with
  | nil => rfl
  | cons r rows ih =>
    by_cases hurl : r.url.isEmpty = true
    · by_cases hhost : r.host.isEmpty = true
      · have hkey : reconKey r = none := by simp [reconKey, hurl, hhost]
        rw [dedupBy_cons_of_none hkey, dedupRecon, ← ih]
        simp [hurl, hhost]
      · have hkey : reconKey r = some (.host r.host) := by simp [reconKey, hurl, hhost]
        by_cases hmem : r.host ∈ hosts
        · rw [dedupBy_cons_of_mem hkey (by simpa using hmem), dedupRecon, ← ih]
          simp [hurl, hhost, hmem]
        · rw [dedupBy_cons_of_notMem hkey (by simpa using hmem), dedupRecon]
          have hseen : ∀ k, k ∈ RowKey.host r.host :: (urls.map .url ++ hosts.map .host) ↔
              k ∈ urls.map .url ++ (r.host :: hosts).map .host := by
            simp [or_left_comm]
          rw [dedupBy_congr fun _ _ k _ => hseen k, ← ih]
          simp [hurl, hhost, hmem]
    · have hkey : reconKey r = some (.url r.url) := by simp [reconKey, hurl]
      by_cases hmem : r.url ∈ urls
      · rw [dedupBy_cons_of_mem hkey (by simpa using hmem), dedupRecon, ← ih]
        simp [hurl, hmem]
      · rw [dedupBy_cons_of_notMem hkey (by simpa using hmem), dedupRecon]
        have hseen : ∀ k, k ∈ RowKey.url r.url :: (urls.map .url ++ hosts.map .host) ↔
            k ∈ (r.url :: urls).map .url ++ hosts.map .host := by
          simp
        rw [dedupBy_congr fun _ _ k _ => hseen k, ← ih]
        simp [hurl, hmem]

theorem dedupScan_eq (seen : List (Text × Text × Text)) (rows : List ParsedScanItem) :
    dedupScan seen rows = dedupBy scanKey (seen.map .issue) rows := by
  induction rows generalizing seen with
  | nil => rfl
  | cons s rows ih =>
    have hkey : scanKey s = some (.issue (dalfoxKey s)) := rfl
    by_cases hmem : dalfoxKey s ∈ seen
    · rw [dedupBy_cons_of_mem hkey (by simpa using hmem), dedupScan, ← ih]
      simp [hmem]
    · rw [dedupBy_cons_of_notMem hkey (by simpa using hmem), dedupScan, ← List.map_cons, ← ih]
      simp [hmem]

/-! ## What an import adds -/

/-- Linking leaves the rows as they are. -/
theorem linkAssets_rows {α : Type} {c : Context} {source : String} {observed : α → Text}
    {rows rows' : List (Stored α)} {assets assets' : List Asset}
    (h : linkAssets c source observed assets rows = .ok (assets', rows')) :
    rows'.map Stored.row = rows.map Stored.row := by
  induction rows generalizing assets assets' rows' with
  | nil =>
    cases h
    rfl
  | cons x rows ih =>
    obtain ⟨⟨assets₁, id⟩, -, h⟩ := bind_eq_ok h
    obtain ⟨⟨assets₂, rows₂⟩, hrows, h⟩ := bind_eq_ok h
    cases h
    rw [List.map_cons, List.map_cons, ih hrows]

/-- An import stores a row for each of these keys that is not recognised. -/
structure Adds (programId : String) (tool : ToolType) (s t : Store) (keys : List (Option RowKey)) :
    Prop where
  stored : storedRowKeys programId tool t =
    storeKeys RowKey.Recognised (storedRowKeys programId tool s) keys
  count : rowCount t = rowCount s +
    (dedupBy id (seenKeys RowKey.Recognised (storedRowKeys programId tool s)) keys).length

/-- Importing keys a second time. -/
theorem Adds.twice_iff {programId : String} {tool : ToolType} {s t u : Store}
    {keys : List (Option RowKey)} (hfirst : Adds programId tool s t keys)
    (hsecond : Adds programId tool t u keys) :
    (rowCount u = rowCount t ∧
        ((storedRowKeys programId tool t).drop (storedRowKeys programId tool s).length).Nodup ∧
        ∀ key ∈ keys, key ∈ storedRowKeys programId tool t) ↔
      ∀ key ∈ keys, ∃ k ∈ key, k.Recognised := by
  have hcount : rowCount u = rowCount t ↔ storeKeys RowKey.Recognised
      (storedRowKeys programId tool t) keys = storedRowKeys programId tool t := by
    rw [hsecond.count, Nat.add_eq_left, List.length_eq_zero_iff, storeKeys,
      List.append_right_eq_self]
  have htwice := @storeKeys_twice_iff RowKey _ RowKey.Recognised _ (storedRowKeys programId tool s)
    keys
  rw [hcount, hfirst.stored, ← htwice]
  simp only [storeKeys, List.drop_left]

omit [Unicode] in
/-- A key of a row is its URL, or its host. -/
theorem reconKey_eq_some {r : ReconItem} {k : RowKey} (h : reconKey r = some k) :
    r.url ≠ [] ∧ k = .url r.url ∨ r.url = [] ∧ k = .host r.host := by
  unfold reconKey at h
  split at h
  · rename_i hurl
    cases h
    exact .inl ⟨by simpa using hurl, rfl⟩
  · rename_i hurl
    split at h
    · cases h
    · cases h
      exact .inr ⟨by simpa using hurl, rfl⟩

omit [Unicode] in
theorem reconKey_eq_url_iff {r : ReconItem} {u : Text} (hu : u ≠ []) :
    reconKey r = some (.url u) ↔ r.url = u := by
  unfold reconKey
  by_cases hurl : r.url = []
  · by_cases hhost : r.host = [] <;> simp [hurl, hhost, hu.symm]
  · simp [hurl]

/-- The stored URLs are the keys that rows of URLs are recognised by. -/
theorem mem_storedUrls_iff {s : Store} {programId : String} {tool : ToolType}
    (htool : tool ≠ .httpx) {u : Text} (hu : u ≠ []) : u ∈ storedUrls s programId tool.text ↔
      some (.url u) ∈ reconKeys programId tool (s.recon.map Stored.row) := by
  have hkey : ∀ r, rowKey tool r = some (.url u) ↔ r.url = u := fun r => by
    rw [rowKey, if_neg htool, reconKey_eq_url_iff hu]
  simp [storedUrls, reconKeys, hkey]

omit [Unicode] in
theorem map_row_fresh {α : Type} (c : Context) (rows : List α) :
    (rows.map (fresh c)).map Stored.row = rows := by
  rw [List.map_map]
  exact List.map_id rows

/-- All rows belong to the engagement and tool. -/
theorem reconKeys_eq_map {programId : String} {tool : ToolType} {rows : List ReconItem}
    (h : ∀ r ∈ rows, r.programId = programId ∧ r.source = tool.text) :
    reconKeys programId tool rows = rows.map (rowKey tool) := by
  unfold reconKeys
  rw [List.filter_eq_self.mpr fun r hr => by simp [h r hr]]

theorem scanKeys_eq_map {programId : String} {tool : ToolType} {rows : List ParsedScanItem}
    (h : ∀ r ∈ rows, r.programId = programId ∧ r.source = tool.text) :
    scanKeys programId tool rows = rows.map scanKey := by
  unfold scanKeys
  rw [List.filter_eq_self.mpr fun r hr => by simp [h r hr]]

/-- The tools whose rows are URLs. -/
def OfUrls (tool : ToolType) : Prop := tool = .ffuf ∨ tool = .katana ∨ tool = .gau

/-- Of an import of URLs the rows under unknown URLs are stored, and those without one. -/
theorem importRecon_adds {c : Context} {tool : ToolType} (htool : OfUrls tool)
    {rows : List ReconItem} (hrows : ∀ r ∈ rows, r.programId = c.programId ∧ r.source = tool.text)
    {s : Store} {imported : Imported} (h : importRecon c tool.text rows s = .ok imported) :
    Adds c.programId tool s imported.store (rows.map (rowKey tool)) := by
  have hhttpx : tool ≠ .httpx := by rcases htool with rfl | rfl | rfl <;> decide
  have hkey : rowKey tool = reconKey := funext fun r => if_neg hhttpx
  have hstored : ∀ s, storedRowKeys c.programId tool s =
      reconKeys c.programId tool (s.recon.map Stored.row) := by
    intro s
    rcases htool with rfl | rfl | rfl <;> rfl
  obtain ⟨⟨assets, added⟩, hadded, h⟩ := bind_eq_ok h
  cases h
  have hadded := linkAssets_rows hadded
  rw [map_row_fresh, dedupRecon_eq, List.map_nil, List.append_nil] at hadded
  have hseen : ∀ r ∈ rows, ∀ k ∈ reconKey r,
      (k ∈ (storedUrls s c.programId tool.text).map RowKey.url ↔
        k ∈ seenKeys RowKey.Recognised (storedRowKeys c.programId tool s)) := by
    intro r _ k hk
    rw [mem_seenKeys, hstored]
    obtain ⟨hu, rfl⟩ | ⟨-, rfl⟩ := reconKey_eq_some hk
    · simp [← mem_storedUrls_iff hhttpx hu, RowKey.Recognised]
    · simp [RowKey.Recognised]
  rw [dedupBy_congr hseen] at hadded
  have hnew : ∀ r ∈ added.map Stored.row, r.programId = c.programId ∧ r.source = tool.text := by
    rw [hadded]
    exact fun r hr => hrows r ((dedupBy_sublist _ _).mem hr)
  have hkeys : (added.map Stored.row).map (rowKey tool) = dedupBy id
      (seenKeys RowKey.Recognised (storedRowKeys c.programId tool s)) (rows.map (rowKey tool)) := by
    rw [hadded, hkey, map_dedupBy]
  constructor
  · rw [storeKeys, ← hkeys, ← reconKeys_eq_map hnew, hstored, hstored]
    simp [reconKeys]
  · rw [← hkeys]
    simp [rowCount]
    omega

/-- Of an import of matches those under unknown keys are stored. -/
theorem importScan_adds {c : Context} {rows : List ParsedScanItem}
    (hrows : ∀ r ∈ rows, r.programId = c.programId ∧ r.source = "dalfox") {newCount : ℕ}
    {s : Store} {imported : Imported}
    (h : importScan c "dalfox" (dedupScan (storedKeys s c.programId "dalfox") rows) newCount s =
      .ok imported) :
    Adds c.programId .dalfox s imported.store (rows.map scanKey) := by
  obtain ⟨⟨assets, added⟩, hadded, h⟩ := bind_eq_ok h
  cases h
  have hadded := linkAssets_rows hadded
  have hseen : ∀ r ∈ rows, ∀ k ∈ scanKey r,
      (k ∈ (storedKeys s c.programId "dalfox").map RowKey.issue ↔
        k ∈ seenKeys RowKey.Recognised (storedRowKeys c.programId .dalfox s)) := by
    intro r _ k hk
    obtain rfl := Option.some.inj hk
    rw [mem_seenKeys]
    simp [storedKeys, storedRowKeys, scanKeys, scanKey, RowKey.Recognised, ToolType.text]
  rw [map_row_fresh, dedupScan_eq, dedupBy_congr hseen] at hadded
  have hnew : ∀ r ∈ added.map Stored.row, r.programId = c.programId ∧
      r.source = ToolType.dalfox.text := by
    rw [hadded]
    exact fun r hr => hrows r ((dedupBy_sublist _ _).mem hr)
  have hkeys : (added.map Stored.row).map scanKey = dedupBy id
      (seenKeys RowKey.Recognised (storedRowKeys c.programId .dalfox s)) (rows.map scanKey) := by
    rw [hadded, map_dedupBy]
  constructor
  · rw [storeKeys, ← hkeys, ← scanKeys_eq_map hnew]
    simp [storedRowKeys, scanKeys]
  · rw [← hkeys]
    simp [rowCount]
    omega

/-! ## The rows of probed hosts -/

theorem rowKey_httpx : rowKey .httpx = probedKey := funext fun _ => if_pos rfl

theorem probedKey_eq_some_iff {r : ReconItem} {h : Text} (hne : h ≠ []) :
    probedKey r = some (.probed h) ↔ hostKey r = h := by
  unfold probedKey
  split
  · rename_i hempty
    simp [hempty, hne.symm]
  · simp

/-- A row that changes and keeps its source and its host keeps the keys. -/
theorem reconKeys_set {programId : String} {tool : ToolType} {rows : List (Stored ReconItem)}
    {n : ℕ} {x y : Stored ReconItem} (hn : rows[n]? = some x)
    (hprogram : y.row.programId = x.row.programId) (hsource : y.row.source = x.row.source)
    (hkey : rowKey tool y.row = rowKey tool x.row) :
    reconKeys programId tool ((rows.set n y).map Stored.row) =
      reconKeys programId tool (rows.map Stored.row) := by
  induction rows generalizing n with
  | nil => cases hn
  | cons z rows ih =>
    cases n with
    | zero =>
      obtain rfl : z = x := Option.some.inj hn
      simp only [reconKeys, List.set_cons_zero, List.map_cons, List.filter_cons, hprogram, hsource]
      split <;> simp [hkey]
    | succ n =>
      have ih := ih hn
      simp only [reconKeys, List.set_cons_succ, List.map_cons, List.filter_cons] at ih ⊢
      split
      · rw [List.map_cons, List.map_cons, ih]
      · exact ih

/-- The index finds the hosts that are stored keys. -/
theorem Indexed.isSome_iff {programId : String} {rows : List (Stored ReconItem)}
    {index : Dict Text ℕ} (hindex : Indexed programId rows index) {h : Text} (hne : h ≠ []) :
    (index h).isSome = true ↔
      .probed h ∈ seenKeys RowKey.Recognised (reconKeys programId .httpx (rows.map Stored.row)) := by
  rw [mem_seenKeys]
  have hmem : some (.probed h) ∈ reconKeys programId .httpx (rows.map Stored.row) ↔
      ∃ x ∈ rows, IsProbed programId x.row ∧ hostKey x.row = h := by
    rw [reconKeys, rowKey_httpx]
    simp [IsProbed, probedKey_eq_some_iff hne, ToolType.text, and_assoc]
  rw [hmem, Option.isSome_iff_exists]
  constructor
  · rintro ⟨n, hn⟩
    obtain ⟨x, hx, hprobed⟩ := hindex.points h n hn
    exact ⟨⟨x, List.mem_of_getElem? hx, hprobed⟩, trivial⟩
  · rintro ⟨⟨x, hx, hprobed, rfl⟩, -⟩
    exact Option.isSome_iff_exists.mp (hindex.knows x hx hprobed hne)

/-- A probe of a host that is stored changes no key, any other one adds its own. -/
theorem reconKeys_probe {c : Context} {p p' : Probing} {item : ReconItem}
    (hindex : Indexed c.programId p.rows p.byHost) (hitem : IsProbed c.programId item)
    (h : probe c p item = .ok p') :
    (p.byHost (hostKey item)).isSome = true ∧ p'.rows.length = p.rows.length ∧
        reconKeys c.programId .httpx (p'.rows.map Stored.row) =
          reconKeys c.programId .httpx (p.rows.map Stored.row) ∨
      p.byHost (hostKey item) = none ∧ p'.rows.length = p.rows.length + 1 ∧
        reconKeys c.programId .httpx (p'.rows.map Stored.row) =
          reconKeys c.programId .httpx (p.rows.map Stored.row) ++ [probedKey item] := by
  obtain ⟨n, x, y, hn, hx, hy, hrows, -, -⟩ | ⟨hn, ⟨x, hx, hrows⟩, -, -⟩ := probe_eq_ok hindex h
  · obtain ⟨z, hz, hprobed, hhost⟩ := hindex.points _ n hn
    obtain rfl := Option.some.inj (hx.symm.trans hz)
    refine .inl ⟨by rw [hn]; rfl, by rw [hrows, List.length_set], ?_⟩
    have hkey : hostKey y.row = hostKey x.row := by rw [hy, hostKey_enrich hhost, hhost]
    rw [hrows, reconKeys_set hx (by rw [hy]; rfl) (by rw [hy]; rfl)]
    rw [rowKey_httpx, probedKey, probedKey, hkey]
  · refine .inr ⟨hn, by rw [hrows, List.length_append, List.length_singleton], ?_⟩
    have hnew : reconKeys c.programId .httpx [x.row] = [probedKey item] := by
      rw [reconKeys_eq_map fun r hr => by rw [List.mem_singleton.mp hr, hx]; exact hitem, hx,
        List.map_singleton, rowKey_httpx]
    rw [hrows, List.map_append, ← hnew]
    simp [reconKeys]

/-- The probes store a row for each host that is not stored, and for each row without one. -/
theorem foldlM_probe_keys {c : Context} {items : List ReconItem} {p p' : Probing}
    (hindex : Indexed c.programId p.rows p.byHost)
    (hitems : ∀ item ∈ items, IsProbed c.programId item)
    (h : items.foldlM (probe c) p = .ok p') :
    reconKeys c.programId .httpx (p'.rows.map Stored.row) =
        storeKeys RowKey.Recognised (reconKeys c.programId .httpx (p.rows.map Stored.row))
          (items.map probedKey) ∧
      p'.rows.length + (reconKeys c.programId .httpx (p.rows.map Stored.row)).length =
        p.rows.length + (reconKeys c.programId .httpx (p'.rows.map Stored.row)).length := by
  induction items generalizing p with
  | nil =>
    cases h
    simp [storeKeys]
  | cons item items ih =>
    rw [List.foldlM_cons] at h
    obtain ⟨p₁, hp₁, h⟩ := bind_eq_ok h
    have hitem := hitems item List.mem_cons_self
    obtain ⟨hkeys, hlength⟩ := ih (hindex.probe hitem hp₁)
      (fun item hmem => hitems item (List.mem_cons_of_mem _ hmem)) h
    obtain ⟨hsome, hlength₁, hkeys₁⟩ | ⟨hnone, hlength₁, hkeys₁⟩ := reconKeys_probe hindex hitem hp₁
    · -- the host is stored
      have hne : hostKey item ≠ [] := by
        intro hempty
        rw [hempty, hindex.noHost] at hsome
        cases hsome
      have hkey : probedKey item = some (.probed (hostKey item)) := if_neg hne
      rw [hkeys₁, hlength₁] at hlength
      refine ⟨?_, hlength⟩
      rw [List.map_cons, hkeys, hkey, hkeys₁,
        storeKeys_cons_of_mem ((hindex.isSome_iff hne).mp hsome)]
    · have hcount := congrArg List.length hkeys₁
      rw [List.length_append, List.length_singleton] at hcount
      refine ⟨?_, by omega⟩
      rw [List.map_cons, hkeys, hkeys₁]
      by_cases hne : hostKey item = []
      · have hkey : probedKey item = none := if_pos hne
        rw [hkey, storeKeys_cons_none]
      · have hkey : probedKey item = some (.probed (hostKey item)) := if_neg hne
        have hnew := mt (hindex.isSome_iff hne).mpr (by simp [hnone])
        rw [hkey, storeKeys_cons_of_notMem hnew trivial]

/-- Of an import of probes the hosts that are not stored are added, and the rows without one. -/
theorem upsertReconHttpx_adds {c : Context} {items : List ReconItem}
    (hitems : ∀ item ∈ items, IsProbed c.programId item) {s : Store} {result : Store × ℕ}
    (h : upsertReconHttpx c items s = .ok result) :
    Adds c.programId .httpx s result.1 (items.map (rowKey .httpx)) := by
  obtain ⟨p, hp, hrows, hscan⟩ := upsertReconHttpx_eq_ok h
  obtain ⟨hkeys, hlength⟩ := foldlM_probe_keys (indexed_probing c s) hitems hp
  have hrecon : result.1.recon.length = p.rows.length := by
    simpa using congrArg List.length hrows
  have hstored : ∀ s, storedRowKeys c.programId .httpx s =
      reconKeys c.programId .httpx (s.recon.map Stored.row) := fun _ => rfl
  constructor
  · rw [hstored, hstored, hrows, rowKey_httpx]
    exact hkeys
  · rw [hkeys, storeKeys, List.length_append] at hlength
    rw [rowCount, rowCount, hrecon, hscan, hstored, rowKey_httpx]
    change p.rows.length + _ = s.recon.length + _ at hlength
    simp only [probing] at hlength
    omega

/-! ## Importing a file again -/

variable [Sanitizer]

/-- The keys of the rows of a file. -/
def fileKeys (programId : String) (tool : ToolType) (items : List Item) : List (Option RowKey) :=
  match tool with
  | .ffuf => ((parseFfuf items programId).toOption.getD []).map (rowKey .ffuf)
  | .httpx => ((parseHttpx items programId).toOption.getD []).map (rowKey .httpx)
  | .katana => (parseKatana items programId).map (rowKey .katana)
  | .gau => (parseGau items programId).map (rowKey .gau)
  | .dalfox => (parseDalfox items programId).map scanKey
  | .nuclei => ((parseNuclei items programId).toOption.getD []).map fun _ => none

/-- Each parser names its engagement and tool. -/
theorem parseFfuf_source {items : List Item} {programId : String} {rows : List ReconItem}
    (h : parseFfuf items programId = .ok rows) :
    ∀ r ∈ rows, r.programId = programId ∧ r.source = ToolType.ffuf.text := by
  intro r hr
  obtain ⟨item, -, hitem⟩ := exists_of_mapM_eq_ok h hr
  unfold parseFfufItem at hitem
  dsimp only at hitem
  split at hitem
  · obtain ⟨url, -, hitem⟩ := bind_eq_ok hitem
    obtain ⟨input, -, hitem⟩ := bind_eq_ok hitem
    obtain ⟨fuzz, -, hitem⟩ := bind_eq_ok hitem
    obtain ⟨contentType, -, hitem⟩ := bind_eq_ok hitem
    cases hitem
    exact ⟨rfl, rfl⟩
  · obtain ⟨input, -, hitem⟩ := bind_eq_ok hitem
    obtain ⟨url, -, hitem⟩ := bind_eq_ok hitem
    obtain ⟨input, -, hitem⟩ := bind_eq_ok hitem
    obtain ⟨fuzz, -, hitem⟩ := bind_eq_ok hitem
    obtain ⟨contentType, -, hitem⟩ := bind_eq_ok hitem
    cases hitem
    exact ⟨rfl, rfl⟩

theorem parseKatana_source {items : List Item} {programId : String} :
    ∀ r ∈ parseKatana items programId, r.programId = programId ∧ r.source = ToolType.katana.text := by
  intro r hr
  obtain ⟨item, -, hitem⟩ := List.mem_filterMap.mp hr
  obtain ⟨_, -, rfl⟩ := Option.map_eq_some_iff.mp hitem
  exact ⟨rfl, rfl⟩

omit [Sanitizer] in
theorem parseGau_source {items : List Item} {programId : String} :
    ∀ r ∈ parseGau items programId, r.programId = programId ∧ r.source = ToolType.gau.text := by
  intro r hr
  obtain ⟨item, -, hitem⟩ := List.mem_filterMap.mp hr
  obtain ⟨_, -, rfl⟩ := Option.map_eq_some_iff.mp hitem
  exact ⟨rfl, rfl⟩

theorem parseDalfox_source {items : List Item} {programId : String} :
    ∀ r ∈ parseDalfox items programId, r.programId = programId ∧ r.source = "dalfox" := by
  intro r hr
  obtain ⟨item, -, rfl⟩ := List.mem_map.mp hr
  simp only [parseDalfoxItem, and_self]

/-- An import adds the rows of its file whose keys are not recognised. -/
theorem importResults_adds {c : Context} {tool : ToolType} (htool : tool ≠ .nuclei)
    {items : List Item} {s : Store} {imported : Imported}
    (h : importResults c tool items s = .ok imported) :
    Adds c.programId tool s imported.store (fileKeys c.programId tool items) := by
  cases tool with
  | ffuf =>
    obtain ⟨rows, hrows, h⟩ := bind_eq_ok h
    rw [fileKeys, hrows]
    exact importRecon_adds (.inl rfl) (parseFfuf_source hrows) h
  | katana => exact importRecon_adds (.inr (.inl rfl)) parseKatana_source h
  | gau => exact importRecon_adds (.inr (.inr rfl)) parseGau_source h
  | httpx =>
    obtain ⟨rows, hrows, h⟩ := bind_eq_ok h
    obtain ⟨⟨store, newCount⟩, hupsert, h⟩ := bind_eq_ok h
    cases h
    rw [fileKeys, hrows]
    exact upsertReconHttpx_adds (parseHttpx_source hrows) hupsert
  | dalfox => exact importScan_adds parseDalfox_source h
  | nuclei => exact absurd rfl htool

/-- A file that is imported again adds nothing, rows that repeat in it are stored once, and
each of its rows has a stored row of its key, exactly when every row has a key that stored rows
are recognised by. -/
theorem import_twice_iff {c c' : Context} {tool : ToolType} (htool : tool ≠ .nuclei)
    (hprogram : c'.programId = c.programId) {items : List Item} {s : Store}
    {first second : Imported} (hfirst : importResults c tool items s = .ok first)
    (hsecond : importResults c' tool items first.store = .ok second) :
    (rowCount second.store = rowCount first.store ∧
        ((storedRowKeys c.programId tool first.store).drop
          (storedRowKeys c.programId tool s).length).Nodup ∧
        ∀ key ∈ fileKeys c.programId tool items, key ∈ storedRowKeys c.programId tool first.store) ↔
      ∀ key ∈ fileKeys c.programId tool items, ∃ k ∈ key, k.Recognised := by
  have hsecond := importResults_adds htool hsecond
  rw [hprogram] at hsecond
  exact (importResults_adds htool hfirst).twice_iff hsecond

omit [Unicode] [Sanitizer] in
/-- A row of ffuf without a URL is stored again by each import. -/
theorem not_import_twice : ¬∀ (c : Context) (tool : ToolType) (items : List Item) (s : Store)
    (first second : Imported), tool ≠ .nuclei →
      @importResults Unicode.ascii ⟨id⟩ c tool items s = .ok first →
      @importResults Unicode.ascii ⟨id⟩ c tool items first.store = .ok second →
        rowCount second.store = rowCount first.store ∧
          ((@storedRowKeys Unicode.ascii c.programId tool first.store).drop
            (@storedRowKeys Unicode.ascii c.programId tool s).length).Nodup ∧
          ∀ key ∈ @fileKeys Unicode.ascii ⟨id⟩ c.programId tool items,
            key ∈ @storedRowKeys Unicode.ascii c.programId tool first.store := by
  let _ := Unicode.ascii
  let _ : Sanitizer := ⟨id⟩
  intro h
  have himports : ∃ first second,
      importResults ⟨"e1", none, 0, fun n => Nat.repr n⟩ .ffuf [[("status", .int 200)]]
        ⟨[], [], []⟩ = .ok first ∧
      importResults ⟨"e1", none, 0, fun n => Nat.repr n⟩ .ffuf [[("status", .int 200)]]
        first.store = .ok second ∧ rowCount second.store ≠ rowCount first.store := by
    refine ⟨_, _, rfl, rfl, ?_⟩
    decide +kernel
  obtain ⟨first, second, hfirst, hsecond, hcount⟩ := himports
  exact hcount (h _ .ffuf _ _ _ _ (by decide) hfirst hsecond).1

omit [Unicode] [Sanitizer] in
/-- A row of ffuf with a URL, twice in a file that is imported twice. -/
theorem import_twice_iff_example : ∃ first second,
    @importResults Unicode.ascii ⟨id⟩ ⟨"e1", none, 0, fun n => Nat.repr n⟩ .ffuf
        [[("url", .str "http://acme.com/a")], [("url", .str "http://acme.com/a")]]
        ⟨[], [], []⟩ = .ok first ∧
      @importResults Unicode.ascii ⟨id⟩ ⟨"e1", none, 1, fun n => Nat.repr n⟩ .ffuf
        [[("url", .str "http://acme.com/a")], [("url", .str "http://acme.com/a")]]
        first.store = .ok second ∧
      rowCount second.store = rowCount first.store := by
  let _ := Unicode.ascii
  let _ : Sanitizer := ⟨id⟩
  have hboth : (do
      let first ← importResults ⟨"e1", none, 0, fun n => Nat.repr n⟩ .ffuf
        [[("url", .str "http://acme.com/a")], [("url", .str "http://acme.com/a")]] ⟨[], [], []⟩
      importResults ⟨"e1", none, 1, fun n => Nat.repr n⟩ .ffuf
        [[("url", .str "http://acme.com/a")], [("url", .str "http://acme.com/a")]]
        first.store).isOk = true := by decide +kernel
  obtain ⟨second, hboth⟩ := exists_of_isOk hboth
  obtain ⟨first, hfirst, hsecond⟩ := bind_eq_ok hboth
  refine ⟨first, second, hfirst, hsecond, ?_⟩
  refine ((import_twice_iff (by decide) (by rfl) hfirst hsecond).mpr ?_).1
  decide +kernel

end VardrMap.Imports
