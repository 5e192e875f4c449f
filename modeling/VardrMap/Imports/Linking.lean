import VardrMap.Imports
import VardrMap.Lib.Asking

/-!
# An import as the asset graph sees it

An import reads the stored rows of its source once. From then on it asks the asset graph for one
node after the other, and what it stores at the end depends on the answers. Run by itself it is
the import, and whatever it is answered, the rows that it adds carry answers.
-/
namespace VardrMap.Imports
open Lib Assets Parsers

/-- An import that asks for the node of an observed string, or for nothing any more. -/
abbrev Linking := Asking Text (Option String)

variable [Unicode]

/-! ## The questions of an import -/

/-- The questions of `_link_assets`. -/
def askAssets {α : Type} (observed : α → Text) : List (Stored α) → Linking (List (Stored α))
  | [] => return []
  | s :: rows => do
    let id ← Asking.question (observed s.row)
    let rows ← askAssets observed rows
    return { s with assetId := id.or s.assetId } :: rows

/-- The question of `_link_one`. -/
def askOne (x : Stored ReconItem) : Linking (Stored ReconItem) :=
  if x.assetId.isSome then return x
  else do
    let id ← Asking.question (reconObserved x.row)
    return { x with assetId := id }

/-- The rows, the position of the row of each host, and where the rows of the upload went so
far. -/
structure Probed where
  rows : List (Stored ReconItem)
  byHost : Dict Text ℕ
  targets : List Target

/-- The question of one row of the upload. -/
def askProbe (c : Context) (p : Probed) (item : ReconItem) : Linking Probed :=
  let host := hostKey item
  match (if host.isEmpty then none else p.byHost host).bind fun n => (p.rows[n]?).map (n, ·) with
  | some (n, target) => do
    let target ← askOne { target with row := enrich target.row item }
    return { p with rows := p.rows.set n target, targets := p.targets ++ [⟨n, false⟩] }
  | none => return {
      rows := p.rows ++ [⟨item, none, c.jobId, some c.now⟩]
      byHost := if host.isEmpty then p.byHost else p.byHost.set host p.rows.length
      targets := p.targets ++ [⟨p.rows.length, true⟩] }

def askProbeAll (c : Context) (items : List ReconItem) (recon : List (Stored ReconItem)) :
    Linking Probed :=
  items.foldlM (askProbe c) ⟨recon, byHost c.programId 0 recon .empty, []⟩

/-- The questions of the upload's rows at the end. -/
def askProbed : List ReconItem → List Target → List (Stored ReconItem) →
    Linking (List (Stored ReconItem))
  | item :: items, target :: targets, rows =>
    if target.added then
      match rows[target.row]? with
      | some x => do
        let x ← askOne x
        askProbed items targets (rows.set target.row x)
      | none => askProbed items targets rows
    else do
      let _ ← Asking.question (reconObserved item)
      askProbed items targets rows
  | _, _, rows => return rows

/-- The questions of `_upsert_recon_httpx`. -/
def askHttpx (c : Context) (items : List ReconItem) (s : Store) : Linking Imported := do
  let p ← askProbeAll c items s.recon
  let recon ← askProbed items p.targets p.rows
  return ⟨{ s with recon }, items.length, (p.targets.filter Target.added).length, []⟩

def askRecon (c : Context) (source : String) (rows : List ReconItem) (s : Store) :
    Linking Imported := do
  let new := dedupRecon (storedUrls s c.programId source) [] rows
  let added ← askAssets reconObserved (new.map (fresh c))
  return ⟨{ s with recon := s.recon ++ added }, new.length, new.length, []⟩

def askScan (c : Context) (new : List ParsedScanItem) (newCount : ℕ) (s : Store) :
    Linking Imported := do
  let added ← askAssets scanObserved (new.map (fresh c))
  return ⟨{ s with scan := s.scan ++ added }, new.length, newCount, new⟩

/-- `import_results` from what it has read of the store, up to its commit. -/
def asking [Sanitizer] (c : Context) (tool : ToolType) (items : List Item) (s : Store) :
    Except Exn (Linking Imported) :=
  match tool with
  | .ffuf => do
    let rows ← parseFfuf items c.programId
    return askRecon c "ffuf" rows s
  | .katana => return askRecon c "katana" (parseKatana items c.programId) s
  | .gau => return askRecon c "gau" (parseGau items c.programId) s
  | .httpx => do
    let rows ← parseHttpx items c.programId
    return askHttpx c rows s
  | .dalfox =>
    let new := dedupScan (storedKeys s c.programId "dalfox") (parseDalfox items c.programId)
    return askScan c new new.length s
  | .nuclei => do
    let rows ← parseNuclei items c.programId
    return askScan c rows 0 s

/-! ## An import by itself -/

theorem run_askAssets {α : Type} (c : Context) (source : String) (observed : α → Text)
    (rows : List (Stored α)) (assets : List Asset) :
    (askAssets observed rows).run (link c source) assets =
      linkAssets c source observed assets rows := by
  induction rows generalizing assets with
  | nil => rfl
  | cons s rows ih =>
    unfold askAssets linkAssets
    rw [Asking.question_bind, Asking.run_ask]
    cases link c source assets (observed s.row) with
    | error e => rfl
    | ok x =>
      change Asking.run _ x.1 (askAssets observed rows >>= _) = _
      rw [Asking.run_bind, ih]
      rfl

theorem run_askOne (c : Context) (x : Stored ReconItem) (assets : List Asset) :
    (askOne x).run (link c "httpx") assets = linkOne c assets x := by
  unfold askOne linkOne
  split <;> rfl

/-- The state of the upload, and the graph beside it. -/
def Probing.apart (p : Probing) : List Asset × Probed := (p.assets, ⟨p.rows, p.byHost, p.targets⟩)

theorem run_askProbe (c : Context) (p : Probing) (item : ReconItem) :
    (askProbe c p.apart.2 item).run (link c "httpx") p.assets =
      (probe c p item).map Probing.apart := by
  unfold askProbe probe
  dsimp only [Probing.apart]
  generalize ((if (hostKey item).isEmpty then none else p.byHost (hostKey item)).bind fun n =>
    (p.rows[n]?).map (n, ·)) = target
  cases target with
  | none => rfl
  | some target =>
    dsimp only
    rw [Asking.run_bind, run_askOne]
    cases linkOne c p.assets _ <;> rfl

theorem run_askProbeAll (c : Context) (items : List ReconItem) (p : Probing) :
    (items.foldlM (askProbe c) p.apart.2).run (link c "httpx") p.assets =
      (items.foldlM (probe c) p).map Probing.apart := by
  induction items generalizing p with
  | nil => rfl
  | cons item items ih =>
    rw [List.foldlM_cons, List.foldlM_cons, Asking.run_bind, run_askProbe]
    cases probe c p item with
    | error e => rfl
    | ok q => exact ih q

theorem run_askProbed (c : Context) (items : List ReconItem) (targets : List Target)
    (rows : List (Stored ReconItem)) (assets : List Asset) :
    (askProbed items targets rows).run (link c "httpx") assets =
      (linkProbed c items targets rows assets).map Prod.swap := by
  induction items generalizing targets rows assets with
  | nil => rfl
  | cons item items ih =>
    cases targets with
    | nil => rfl
    | cons target targets =>
      unfold askProbed linkProbed
      split
      · cases rows[target.row]? with
        | none => exact ih targets rows assets
        | some x =>
          dsimp only
          rw [Asking.run_bind, run_askOne]
          cases linkOne c assets x with
          | error e => rfl
          | ok y => exact ih targets _ _
      · rw [Asking.question_bind, Asking.run_ask]
        cases link c "httpx" assets (reconObserved item) with
        | error e => rfl
        | ok y => exact ih targets rows y.1

/-- What an import has stored, with the graph beside it: as its rows were read. -/
def Imported.apart (assets : List Asset) (r : Imported) : List Asset × Imported :=
  (r.store.assets, { r with store := { r.store with assets } })

theorem run_askHttpx (c : Context) (items : List ReconItem) (s : Store) :
    (askHttpx c items s).run (link c "httpx") s.assets =
      (do
        let (store, newCount) ← upsertReconHttpx c items s
        return (⟨store, items.length, newCount, []⟩ : Imported)).map
          (Imported.apart s.assets) := by
  unfold askHttpx askProbeAll upsertReconHttpx probeAll
  rw [Asking.run_bind]
  have hall := run_askProbeAll c items ⟨s.recon, s.assets, byHost c.programId 0 s.recon .empty, []⟩
  dsimp only [Probing.apart] at hall
  rw [hall]
  cases items.foldlM (probe c) ⟨s.recon, s.assets, byHost c.programId 0 s.recon .empty, []⟩ with
  | error e => rfl
  | ok p =>
    change Asking.run _ p.assets (askProbed items p.targets p.rows >>= _) = _
    rw [Asking.run_bind, run_askProbed]
    cases hp : linkProbed c items p.targets p.rows p.assets with
    | error e => simp [bind, Except.bind, Except.map, hp]
    | ok x =>
      simp [bind, Except.bind, Except.map, pure, Except.pure, hp, Imported.apart, Probing.apart]

/-- An import by itself asks what it links, and stores what it is answered. -/
theorem run_asking [Sanitizer] (c : Context) (tool : ToolType) (items : List Item) (s : Store) :
    (asking c tool items s >>= fun p => p.run (link c tool.text) s.assets) =
      (importResults c tool items s).map (Imported.apart s.assets) := by
  have hrecon (source : String) (rows : List ReconItem) :
      (askRecon c source rows s).run (link c source) s.assets =
        (importRecon c source rows s).map (Imported.apart s.assets) := by
    unfold askRecon importRecon
    dsimp only
    rw [Asking.run_bind, run_askAssets]
    cases linkAssets c source reconObserved s.assets _ <;> rfl
  have hscan (source : String) (new : List ParsedScanItem) (newCount : ℕ) :
      (askScan c new newCount s).run (link c source) s.assets =
        (importScan c source new newCount s).map (Imported.apart s.assets) := by
    unfold askScan importScan
    rw [Asking.run_bind, run_askAssets]
    cases linkAssets c source scanObserved s.assets _ <;> rfl
  unfold asking importResults
  cases tool with
  | ffuf =>
    cases parseFfuf items c.programId with
    | error e => rfl
    | ok rows => exact hrecon "ffuf" rows
  | katana => exact hrecon "katana" _
  | gau => exact hrecon "gau" _
  | httpx =>
    cases parseHttpx items c.programId with
    | error e => rfl
    | ok rows => exact run_askHttpx c rows s
  | dalfox => exact hscan "dalfox" _ _
  | nuclei =>
    cases parseNuclei items c.programId with
    | error e => rfl
    | ok rows => exact hscan "nuclei" rows 0

/-! ## What the rows carry -/

/-- A row that probes have written into, however often. -/
def Grows : ReconItem → ReconItem → Prop :=
  Relation.ReflTransGen fun row row' => ∃ item, row' = enrich row item

/-- The row at a position is as it was read, or was linked before, or carries the answer for what
it was linked by, or is still to be linked for one of these targets. -/
def Carries (recon : List (Stored ReconItem)) (log : List (Text × Option String))
    (targets : List Target) (n : ℕ) (x : Stored ReconItem) : Prop :=
  recon[n]? = some x ∨
    (∃ x₀, recon[n]? = some x₀ ∧ x₀.assetId.isSome = true ∧ x.assetId = x₀.assetId) ∨
    (∃ row, Grows row x.row ∧ (reconObserved row, x.assetId) ∈ log) ∨
    x.assetId = none ∧ ⟨n, true⟩ ∈ targets

/-- What an import adds carries the answers, and what it has read keeps its links. -/
def Imported.Answered (tool : ToolType) (s : Store) (log : List (Text × Option String))
    (r : Imported) : Prop :=
  match tool with
  | .httpx => r.store.scan = s.scan ∧
      ∀ n x, r.store.recon[n]? = some x → Carries s.recon log [] n x
  | _ => (∀ x ∈ r.store.recon, x ∈ s.recon ∨ (reconObserved x.row, x.assetId) ∈ log) ∧
      ∀ x ∈ r.store.scan, x ∈ s.scan ∨ (scanObserved x.row, x.assetId) ∈ log

omit [Unicode] in
theorem ends_askAssets {α : Type} (observed : α → Text) (rows : List (Stored α))
    (hrows : ∀ s ∈ rows, s.assetId = none) (log : List (Text × Option String)) :
    (askAssets observed rows).Ends (fun log out => ∀ x ∈ out, (observed x.row, x.assetId) ∈ log)
      log := by
  induction rows generalizing log with
  | nil => exact fun _ => nofun
  | cons s rows ih =>
    rw [List.forall_mem_cons] at hrows
    unfold askAssets
    rw [Asking.question_bind]
    intro id
    refine (ih hrows.2 _).extends.bind fun log' out h => ?_
    have hasked : (observed s.row, id) ∈ log' := h.1 (List.mem_append_right _ (.head _))
    refine List.forall_mem_cons.mpr ⟨?_, h.2⟩
    simpa [hrows.1] using hasked

omit [Unicode] in
theorem Carries.mono {recon : List (Stored ReconItem)} {log log' : List (Text × Option String)}
    {targets targets' : List Target} {n : ℕ} {x : Stored ReconItem}
    (h : Carries recon log targets n x) (hlog : log ⊆ log')
    (htargets : x.assetId = none → ⟨n, true⟩ ∈ targets → ⟨n, true⟩ ∈ targets') :
    Carries recon log' targets' n x := by
  obtain h | h | ⟨row, hrow, h⟩ | ⟨hnone, h⟩ := h
  · exact .inl h
  · exact .inr (.inl h)
  · exact .inr (.inr (.inl ⟨row, hrow, hlog h⟩))
  · exact .inr (.inr (.inr ⟨hnone, htargets hnone h⟩))

omit [Unicode] in
/-- A row that is linked now, for what a probe has made of it, has no target to wait for. -/
theorem ends_askOne {recon : List (Stored ReconItem)} {log : List (Text × Option String)}
    {targets : List Target} {n : ℕ} {x y : Stored ReconItem} (h : Carries recon log targets n x)
    (hrow : y.row = x.row ∨ ∃ item, y.row = enrich x.row item) (hid : y.assetId = x.assetId) :
    (askOne y).Ends (fun log' z => log ⊆ log' ∧ Carries recon log' [] n z) log := by
  have hgrows : Grows x.row y.row := by
    obtain hrow | hrow := hrow
    · exact hrow ▸ .refl
    · exact .single hrow
  unfold askOne
  split
  · rename_i hlinked
    refine ⟨fun _ => id, ?_⟩
    obtain h | ⟨x₀, hx₀, hsome, h⟩ | ⟨row, hrow, h⟩ | ⟨hnone, -⟩ := h
    · exact .inr (.inl ⟨x, h, hid ▸ hlinked, hid⟩)
    · exact .inr (.inl ⟨x₀, hx₀, hsome, hid.trans h⟩)
    · exact .inr (.inr (.inl ⟨row, hrow.trans hgrows, hid ▸ h⟩))
    · simp [hid, hnone] at hlinked
  · rw [Asking.question_bind]
    intro id
    refine ⟨List.subset_append_left _ _, .inr (.inr (.inl ⟨y.row, .refl, ?_⟩))⟩
    exact List.mem_append_right _ (.head _)

/-- What so many rows of the upload have done. -/
def Probed.Carries (recon : List (Stored ReconItem)) (count : ℕ)
    (log : List (Text × Option String)) (p : Probed) : Prop :=
  p.targets.length = count ∧ ∀ n x, p.rows[n]? = some x → Imports.Carries recon log p.targets n x

theorem ends_askProbe (c : Context) {recon : List (Stored ReconItem)} {count : ℕ}
    {log : List (Text × Option String)} {p : Probed} (h : p.Carries recon count log)
    (item : ReconItem) : (askProbe c p item).Ends (Probed.Carries recon (count + 1)) log := by
  obtain ⟨hcount, h⟩ := h
  unfold askProbe
  dsimp only
  split
  · rename_i n target hfound
    obtain ⟨m, -, hm⟩ := Option.bind_eq_some_iff.mp hfound
    obtain ⟨x, hx, hm⟩ := Option.map_eq_some_iff.mp hm
    obtain ⟨rfl, rfl⟩ := Prod.mk.inj hm
    have hone := ends_askOne (y := { x with row := enrich x.row item }) (h m x hx)
      (.inr ⟨item, rfl⟩) rfl
    refine hone.bind fun log' y hy => ⟨by simp [hcount], fun k z hz => ?_⟩
    rw [List.getElem?_set] at hz
    split at hz
    · rename_i hk
      split at hz
      · obtain rfl := Option.some.inj hz
        exact hk ▸ hy.2.mono (fun _ => id) fun _ => nofun
      · cases hz
    · exact (h k z hz).mono hy.1 fun _ => List.mem_append_left _
  · refine ⟨by simp [hcount], fun k z hz => ?_⟩
    rw [List.getElem?_append] at hz
    split at hz
    · exact (h k z hz).mono (fun _ => id) fun _ => List.mem_append_left _
    · rename_i hk
      obtain ⟨hzero, rfl⟩ : k - p.rows.length = 0 ∧
          (⟨item, none, c.jobId, some c.now⟩ : Stored ReconItem) = z := by
        rw [List.getElem?_singleton] at hz
        split at hz
        · exact ⟨‹_›, Option.some.inj hz⟩
        · cases hz
      have hk : k = p.rows.length := by omega
      exact .inr (.inr (.inr ⟨rfl, List.mem_append_right _ (hk ▸ .head _)⟩))

omit [Unicode] in
theorem ends_askProbed {recon : List (Stored ReconItem)} (items : List ReconItem)
    (targets : List Target) (hlength : targets.length = items.length)
    (rows : List (Stored ReconItem)) (log : List (Text × Option String))
    (h : ∀ n x, rows[n]? = some x → Carries recon log targets n x) :
    (askProbed items targets rows).Ends
      (fun log rows => ∀ n x, rows[n]? = some x → Carries recon log [] n x) log := by
  induction items generalizing targets rows log with
  | nil => exact List.length_eq_zero_iff.mp hlength ▸ h
  | cons item items ih =>
    cases targets with
    | nil => cases hlength
    | cons target targets =>
      have hlength : targets.length = items.length := Nat.succ.inj hlength
      have hskip (n : ℕ) (hn : target.added = true → n ≠ target.row) :
          ⟨n, true⟩ ∈ target :: targets → (⟨n, true⟩ : Target) ∈ targets := by
        intro hmem
        obtain rfl | hmem := List.mem_cons.mp hmem
        · exact absurd rfl (hn rfl)
        · exact hmem
      unfold askProbed
      split
      · split
        · rename_i x hx
          refine (ends_askOne (h _ x hx) (.inl rfl) rfl).bind fun log' y hy => ?_
          refine ih targets hlength _ log' fun n z hz => ?_
          rw [List.getElem?_set] at hz
          split at hz
          · rename_i hn
            split at hz
            · obtain rfl := Option.some.inj hz
              exact hn ▸ hy.2.mono (fun _ => id) fun _ => nofun
            · cases hz
          · rename_i hn
            exact (h n z hz).mono hy.1 fun _ => hskip n fun _ heq => hn heq.symm
        · rename_i hnone
          refine ih targets hlength rows log fun n z hz => (h n z hz).mono (fun _ => id) fun _ => ?_
          refine hskip n fun _ heq => ?_
          rw [heq, hnone] at hz
          cases hz
      · rename_i hadded
        rw [Asking.question_bind]
        intro id
        refine ih targets hlength rows _ fun n z hz => ?_
        exact (h n z hz).mono (List.subset_append_left _ _) fun _ =>
          hskip n fun hn => absurd hn hadded

theorem ends_askHttpx (c : Context) (items : List ReconItem) (s : Store) :
    (askHttpx c items s).Ends (Imported.Answered .httpx s) [] := by
  have hread : (⟨s.recon, byHost c.programId 0 s.recon .empty, []⟩ : Probed).Carries s.recon 0 [] :=
    ⟨rfl, fun n x hx => .inl hx⟩
  have hall : (askProbeAll c items s.recon).Ends (Probed.Carries s.recon (0 + items.length)) [] :=
    Asking.Ends.foldlM hread fun _ _ _ hp item => ends_askProbe c hp item
  refine hall.bind fun log p hp => ?_
  have hprobed := ends_askProbed items p.targets (hp.1.trans (Nat.zero_add _)) p.rows log hp.2
  exact hprobed.bind fun log' rows hrows => ⟨rfl, hrows⟩

/-- Whatever an import is answered, its rows carry it. -/
theorem ends_asking [Sanitizer] {c : Context} {tool : ToolType} {items : List Item} {s : Store}
    {p : Linking Imported} (h : asking c tool items s = .ok p) :
    p.Ends (Imported.Answered tool s) [] := by
  have hfresh {α : Type} (rows : List α) : ∀ x ∈ rows.map (fresh c), x.assetId = none := by
    intro x hx
    obtain ⟨row, -, rfl⟩ := List.mem_map.mp hx
    rfl
  have hrecon (source : String) (rows : List ReconItem) (ht : tool ≠ .httpx) :
      (askRecon c source rows s).Ends (Imported.Answered tool s) [] := by
    refine (ends_askAssets reconObserved _ (hfresh _) []).bind fun log added hadded => ?_
    cases tool with
    | httpx => exact absurd rfl ht
    | _ => exact ⟨fun x hx => (List.mem_append.mp hx).imp id (hadded x), fun x hx => .inl hx⟩
  have hscan (new : List ParsedScanItem) (newCount : ℕ) (ht : tool ≠ .httpx) :
      (askScan c new newCount s).Ends (Imported.Answered tool s) [] := by
    refine (ends_askAssets scanObserved _ (hfresh _) []).bind fun log added hadded => ?_
    cases tool with
    | httpx => exact absurd rfl ht
    | _ => exact ⟨fun x hx => .inl hx, fun x hx => (List.mem_append.mp hx).imp id (hadded x)⟩
  unfold asking at h
  cases tool with
  | ffuf =>
    obtain ⟨rows, -, h⟩ := bind_eq_ok h
    exact Except.ok.inj h ▸ hrecon _ _ nofun
  | katana => exact Except.ok.inj h ▸ hrecon _ _ nofun
  | gau => exact Except.ok.inj h ▸ hrecon _ _ nofun
  | httpx =>
    obtain ⟨rows, -, h⟩ := bind_eq_ok h
    exact Except.ok.inj h ▸ ends_askHttpx c rows s
  | dalfox => exact Except.ok.inj h ▸ hscan _ _ nofun
  | nuclei =>
    obtain ⟨rows, -, h⟩ := bind_eq_ok h
    exact Except.ok.inj h ▸ hscan _ _ nofun

end VardrMap.Imports
