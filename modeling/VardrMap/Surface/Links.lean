import VardrMap.Surface.Nodes

/-!
# What is on a node

Over whole runs, every observation that can be classified is linked to the one node of its key in
its engagement. Observations of a host meet on its node, whichever way they came.
-/
namespace VardrMap.Surface
open Lib Assets Parsers Imports Sharing

variable [Unicode]

/-! ## Observations -/

/-- A row as the asset graph sees it: its engagement, the key of what it observed, and the node
that it is linked to. -/
structure Sighting where
  programId : String
  key : Option Text
  assetId : Option String
  deriving DecidableEq

def reconSighting (x : Imports.Stored ReconItem) : Sighting :=
  ⟨x.row.programId, keyOf (reconObserved x.row) none true, x.assetId⟩

def scanSighting (x : Imports.Stored ParsedScanItem) : Sighting :=
  ⟨x.row.programId, keyOf (scanObserved x.row) none true, x.assetId⟩

def serviceSighting (x : Service) : Sighting :=
  ⟨x.programId, keyOf x.host (some x.port) false, x.assetId⟩

def findingSighting (f : TrackedFinding) : Sighting :=
  ⟨f.programId, keyOf (orDefault f.asset "").toList none true, f.assetId⟩

/-- All rows but those of probed hosts, which probes write into after they are linked. -/
def Tables.sightings (s : Tables) : List Sighting :=
  (s.rows.recon.filter fun x => x.row.source != "httpx").map reconSighting ++
    s.rows.scan.map scanSighting ++ s.services.map serviceSighting ++
      s.findings.rows.map findingSighting

/-- The rows that are sighted. -/
inductive Tables.Sights (s : Tables) : Sighting → Prop
  | recon {x : Imports.Stored ReconItem} (stored : x ∈ s.rows.recon)
      (other : x.row.source ≠ "httpx") : Sights s (reconSighting x)
  | scan {x : Imports.Stored ParsedScanItem} (stored : x ∈ s.rows.scan) : Sights s (scanSighting x)
  | service {x : Service} (stored : x ∈ s.services) : Sights s (serviceSighting x)
  | finding {f : TrackedFinding} (stored : f ∈ s.findings.rows) : Sights s (findingSighting f)

theorem mem_sightings {s : Tables} {x : Sighting} : x ∈ s.sightings ↔ s.Sights x := by
  unfold Tables.sightings
  rw [List.mem_append, List.mem_append, List.mem_append]
  constructor
  · rintro (((h | h) | h) | h)
    · obtain ⟨x, hx, rfl⟩ := List.mem_map.mp h
      obtain ⟨hx, hsource⟩ := List.mem_filter.mp hx
      exact .recon hx (bne_iff_ne.mp hsource)
    · obtain ⟨x, hx, rfl⟩ := List.mem_map.mp h
      exact .scan hx
    · obtain ⟨x, hx, rfl⟩ := List.mem_map.mp h
      exact .service hx
    · obtain ⟨f, hf, rfl⟩ := List.mem_map.mp h
      exact .finding hf
  · rintro (⟨hx, hsource⟩ | ⟨hx⟩ | ⟨hx⟩ | ⟨hf⟩)
    · refine .inl (.inl (.inl (List.mem_map_of_mem ?_)))
      exact List.mem_filter.mpr ⟨hx, by simpa using hsource⟩
    · exact .inl (.inl (.inr (List.mem_map_of_mem hx)))
    · exact .inl (.inr (List.mem_map_of_mem hx))
    · exact .inr (List.mem_map_of_mem hf)

/-- A sighting that is on its node. -/
def Sighting.On (x : Sighting) (assets : List Asset) : Prop :=
  OnNode assets x.programId x.key x.assetId

/-- The graph is in order, and every sighting is on its node. -/
structure Charted (newId : ℕ → String) (s : Tables) : Prop where
  nodes : Nodes newId (s.gone + s.rows.assets.length) s.rows.assets
  linked : ∀ x, s.Sights x → x.On s.rows.assets

variable {newId : ℕ → String} {s s' : Tables} {v : Visit} {programId : String}

theorem Charted.empty (newId : ℕ → String) : Charted newId .empty where
  nodes := ⟨List.nodup_nil, List.nodup_nil, fun _ ha => absurd ha List.not_mem_nil⟩
  linked := fun x hx => by
    cases hx with
    | recon h | scan h | service h | finding h => exact absurd h List.not_mem_nil

/-- What a request does: the nodes stay, and what it writes is on its node. -/
structure Observes (newId : ℕ → String) (s s' : Tables) : Prop where
  gone : s'.gone = s.gone
  grown : Extends newId s.gone s.rows.assets s'.rows.assets
  seen : ∀ x, s'.Sights x → s.Sights x ∨ x.On s'.rows.assets

theorem Observes.refl (newId : ℕ → String) (s : Tables) : Observes newId s s :=
  ⟨rfl, .refl newId s.gone s.rows.assets, fun _ => .inl⟩

theorem Observes.trans {s'' : Tables} (h : Observes newId s s') (h' : Observes newId s' s'') :
    Observes newId s s'' := by
  have hgrown : Extends newId s.gone s'.rows.assets s''.rows.assets := h.gone ▸ h'.grown
  refine ⟨h'.gone.trans h.gone, h.grown.trans hgrown, fun x hx => ?_⟩
  rcases h'.seen x hx with hx | hon
  · exact (h.seen x hx).imp_right fun hon => OnNode.mono hon hgrown.keeps
  · exact .inr hon

theorem Charted.observes (h : Charted newId s) (hobserves : Observes newId s s') :
    Charted newId s' where
  nodes := hobserves.gone ▸ hobserves.grown.nodes h.nodes
  linked := fun x hx => by
    rcases hobserves.seen x hx with hx | hon
    · exact OnNode.mono (h.linked x hx) hobserves.grown.keeps
    · exact hon

/-! ## Requests -/

section
variable {jobId : Option String} {findingId : String}

theorem importFile_eq_ok [Sanitizer] {tool : ToolType} {items : List Item}
    (h : importFile newId v programId jobId tool items s = .ok s') :
    ∃ imported, importResults (s.context newId v programId jobId) tool items s.rows = .ok imported ∧
      s' = { s with rows := imported.store } := by
  obtain ⟨_, -, h⟩ := bind_eq_ok h
  obtain ⟨_, -, h⟩ := bind_eq_ok h
  obtain ⟨imported, himported, h⟩ := bind_eq_ok h
  exact ⟨imported, raise_eq_ok himported, (Except.ok.inj h).symm⟩

theorem bulkCreateServices_eq_ok {services : List ServiceIn}
    (h : bulkCreateServices newId v programId services jobId s = .ok s') :
    services.foldlM (putService newId v programId) s = .ok s' := by
  obtain ⟨_, -, h⟩ := bind_eq_ok h
  obtain ⟨_, -, h⟩ := bind_eq_ok h
  exact h

/-- One posted service: a stored one is changed, and linked if it was not, or a new one is added. -/
theorem putService_eq_ok {svc : ServiceIn} (h : putService newId v programId s svc = .ok s') :
    (∃ existing assets assetId,
      (s.services.find? fun x => x.key == svc.key programId) = some existing ∧
      (assets = s.rows.assets ∧ assetId = existing.assetId ∨
        svc.node newId v programId (some svc.port) s s.rows.assets = .ok (assets, assetId)) ∧
      s' = { s with
        rows := { s.rows with assets }
        services := updateFirst Service.key existing.key (svc.update v assetId) s.services }) ∨
    ∃ assets₁ assets host service,
      (s.services.find? fun x => x.key == svc.key programId) = none ∧
      svc.node newId v programId none s s.rows.assets = .ok (assets₁, host) ∧
      svc.node newId v programId (some svc.port) s assets₁ = .ok (assets, service) ∧
      s' = { s with
        rows := { s.rows with assets }
        services := s.services ++ [svc.row v programId (v.uuid s.services.length) service]
        edges := expose v programId s.edges svc.sourceText host service } := by
  unfold putService at h
  split at h
  · rename_i existing hfound
    left
    split at h
    · exact ⟨existing, s.rows.assets, existing.assetId, hfound, .inl ⟨rfl, rfl⟩,
        (Except.ok.inj h).symm⟩
    · obtain ⟨⟨assets, assetId⟩, hnode, h⟩ := bind_eq_ok h
      exact ⟨existing, assets, assetId, hfound, .inr (raise_eq_ok hnode), (Except.ok.inj h).symm⟩
  · rename_i hnone
    right
    obtain ⟨⟨assets₁, host⟩, hhost, h⟩ := bind_eq_ok h
    obtain ⟨⟨assets, service⟩, hservice, h⟩ := bind_eq_ok h
    exact ⟨assets₁, assets, host, service, hnone, raise_eq_ok hhost, raise_eq_ok hservice,
      (Except.ok.inj h).symm⟩

omit [Unicode] in
theorem deleteService_eq_ok {serviceId : String}
    (h : deleteService v programId serviceId s = .ok s') :
    ∃ services, services.Sublist s.services ∧ s' = { s with services } := by
  obtain ⟨_, -, h⟩ := bind_eq_ok h
  obtain ⟨_, -, h⟩ := bind_eq_ok h
  obtain ⟨_, -, h⟩ := bind_eq_ok h
  exact ⟨_, List.eraseP_sublist, (Except.ok.inj h).symm⟩

omit [Unicode] in
theorem findFinding_eq_ok {f : TrackedFinding} (h : findFinding programId findingId s = .ok f) :
    s.findings.get? findingId = some f ∧ f.programId = programId := by
  obtain ⟨hget, hprogram⟩ := Option.filter_eq_some_iff.mp (found_eq_ok h)
  exact ⟨hget, beq_iff_eq.mp hprogram⟩

theorem addFinding_eq_ok [WordTable] {p : FindingCreate}
    (h : addFinding newId v programId p s = .ok s') :
    ∃ engagement assets f findings, writableEngagement v.db programId v.user = .ok engagement ∧
      linkFinding newId v programId (p.row v programId) s = .ok (assets, f) ∧
      s.findings.insert f = some findings ∧
      s' = { s with
        rows := { s.rows with assets }
        findings
        history := s.history ++ [record v f (v.uuid 2) "created" "" none []] } := by
  obtain ⟨engagement, hwritable, h⟩ := bind_eq_ok h
  obtain ⟨⟨assets, f⟩, hlink, h⟩ := bind_eq_ok h
  obtain ⟨findings, hinsert, h⟩ := bind_eq_ok h
  exact ⟨engagement, assets, f, findings, hwritable, raise_eq_ok hlink, found_eq_ok hinsert,
    (Except.ok.inj h).symm⟩

theorem updateFinding_eq_ok [WordTable] {u : FindingUpdate}
    (h : updateFinding newId v programId findingId u s = .ok s') :
    ∃ engagement old title assets f,
      writableEngagement v.db programId v.user = .ok engagement ∧
      s.findings.get? findingId = some old ∧ old.programId = programId ∧
      relinkFinding newId v programId u (u.amend title old) s = .ok (assets, f) ∧
      s' = { s with
        rows := { s.rows with assets }
        findings := s.findings.put f
        history := captureBaseline v old s.history ++
          [record v f (v.uuid 2) "updated" "" none []] } := by
  obtain ⟨engagement, hwritable, h⟩ := bind_eq_ok h
  obtain ⟨old, hfind, h⟩ := bind_eq_ok h
  obtain ⟨title, -, h⟩ := bind_eq_ok h
  obtain ⟨⟨assets, f⟩, hlink, h⟩ := bind_eq_ok h
  obtain ⟨hget, hprogram⟩ := findFinding_eq_ok hfind
  exact ⟨engagement, old, title, assets, f, hwritable, hget, hprogram, raise_eq_ok hlink,
    (Except.ok.inj h).symm⟩

omit [Unicode] in
theorem deleteFinding_eq_ok (h : deleteFinding v programId findingId s = .ok s') :
    ∃ f : TrackedFinding, s' = { s with
      findings := s.findings.filter fun g => g.id != f.id
      history := s.history.filter fun e => e.findingId != f.id } := by
  obtain ⟨_, -, h⟩ := bind_eq_ok h
  obtain ⟨f, -, h⟩ := bind_eq_ok h
  exact ⟨f, (Except.ok.inj h).symm⟩

theorem addActivity_eq_ok [WordTable] [Sanitizer] {body : ActivityCreate}
    (h : addActivity v programId findingId body s = .ok s') :
    ∃ engagement f notes evidence, writableEngagement v.db programId v.user = .ok engagement ∧
      s.findings.get? findingId = some f ∧ f.programId = programId ∧
      s' = { s with history := captureBaseline v f s.history ++
        [record v f (v.uuid 2) body.kind.text notes body.outcome evidence] } := by
  obtain ⟨engagement, hwritable, h⟩ := bind_eq_ok h
  obtain ⟨f, hfind, h⟩ := bind_eq_ok h
  obtain ⟨_, -, h⟩ := bind_eq_ok h
  obtain ⟨_, -, h⟩ := bind_eq_ok h
  obtain ⟨_, -, h⟩ := bind_eq_ok h
  obtain ⟨hget, hprogram⟩ := findFinding_eq_ok hfind
  exact ⟨engagement, f, _, _, hwritable, hget, hprogram, (Except.ok.inj h).symm⟩

end

/-! ## Observing requests -/

theorem importFile_observes [Sanitizer] (hinj : Function.Injective newId) {jobId : Option String}
    {tool : ToolType} {items : List Item}
    (h : importFile newId v programId jobId tool items s = .ok s') : Observes newId s s' := by
  obtain ⟨imported, himported, rfl⟩ := importFile_eq_ok h
  have hdraws : Draws newId s.gone (s.context newId v programId jobId) := rfl
  obtain ⟨hgrown, hrecon, hscan⟩ := importResults_places hinj hdraws himported
  refine ⟨rfl, hgrown, fun x hx => ?_⟩
  cases hx with
  | @recon x hx hsource =>
    rcases hrecon x hx hsource with hold | ⟨hprogram, hon⟩
    · exact .inl (.recon hold hsource)
    · refine .inr ?_
      change OnNode _ x.row.programId _ _
      rw [hprogram]
      exact hon
  | @scan x hx =>
    rcases hscan x hx with hold | ⟨hprogram, hon⟩
    · exact .inl (.scan hold)
    · refine .inr ?_
      change OnNode _ x.row.programId _ _
      rw [hprogram]
      exact hon
  | service hx => exact .inl (.service hx)
  | finding hf => exact .inl (.finding hf)

theorem node_extends (hinj : Function.Injective newId) {svc : ServiceIn} {port : Option ℕ}
    {assets assets' : List Asset} {id : Option String}
    (h : svc.node newId v programId port s assets = .ok (assets', id)) :
    Extends newId s.gone assets assets' ∧ OnNode assets' programId (keyOf svc.host port false) id :=
  upsert_extends hinj h

/-- One posted service. -/
theorem putService_observes (hinj : Function.Injective newId) {svc : ServiceIn}
    (h : putService newId v programId s svc = .ok s') : Observes newId s s' := by
  rcases putService_eq_ok h with ⟨existing, assets', assetId, hfound, hnode, rfl⟩ |
    ⟨assets₁, assets₂, host, service, -, hhost, hservice, rfl⟩
  · have hkey := List.find?_some hfound
    rw [beq_iff_eq] at hkey
    have hstored := List.mem_of_find?_eq_some hfound
    obtain ⟨hprogram, hhost, hport, -⟩ : existing.programId = programId ∧
        existing.host = svc.host ∧ existing.port = svc.port ∧
          existing.protocol = svc.protocol.text := by
      simpa [Service.key, ServiceIn.key] using hkey
    -- the changed row has the key of the one that was found
    have hchanged : ∀ {x : Service}, x.key = existing.key →
        serviceSighting (svc.update v assetId x) =
          ⟨programId, keyOf svc.host (some svc.port) false, assetId⟩ := fun {x} hx => by
      obtain ⟨hprogram, hhost, hport, -⟩ : x.programId = programId ∧ x.host = svc.host ∧
          x.port = svc.port ∧ x.protocol = svc.protocol.text := by
        simpa [Service.key, ServiceIn.key] using hx.trans hkey
      simp [serviceSighting, ServiceIn.update, hprogram, hhost, hport]
    have hexisting : serviceSighting existing =
        ⟨programId, keyOf svc.host (some svc.port) false, existing.assetId⟩ := by
      simp [serviceSighting, hprogram, hhost, hport]
    have hplaced : Extends newId s.gone s.rows.assets assets' ∧ (assetId = existing.assetId ∨
        OnNode assets' programId (keyOf svc.host (some svc.port) false) assetId) := by
      rcases hnode with ⟨rfl, rfl⟩ | hnode
      · exact ⟨.refl newId s.gone s.rows.assets, .inl rfl⟩
      · exact (node_extends hinj hnode).imp_right .inr
    obtain ⟨hgrown, hlink⟩ := hplaced
    refine ⟨rfl, hgrown, fun x hx => ?_⟩
    cases hx with
    | recon hx hsource => exact .inl (.recon hx hsource)
    | scan hx => exact .inl (.scan hx)
    | @service x hx =>
      rcases mem_updateFirst hx with hx | ⟨y, hy, hy', rfl⟩
      · exact .inl (.service hx)
      · rw [hchanged hy']
        rcases hlink with rfl | hon
        · rw [← hexisting]
          exact .inl (.service hstored)
        · exact .inr hon
    | finding hf => exact .inl (.finding hf)
  · obtain ⟨hgrown, -⟩ := node_extends hinj hhost
    obtain ⟨hgrown', hon⟩ := node_extends hinj hservice
    refine ⟨rfl, hgrown.trans hgrown', fun x hx => ?_⟩
    cases hx with
    | recon hx hsource => exact .inl (.recon hx hsource)
    | scan hx => exact .inl (.scan hx)
    | @service x hx =>
      rcases List.mem_append.mp hx with hx | hx
      · exact .inl (.service hx)
      · obtain rfl := List.mem_singleton.mp hx
        exact .inr hon
    | finding hf => exact .inl (.finding hf)

theorem foldlM_observes (hinj : Function.Injective newId) {services : List ServiceIn}
    (h : services.foldlM (putService newId v programId) s = .ok s') : Observes newId s s' := by
  induction services generalizing s with
  | nil =>
    obtain rfl := Except.ok.inj h
    exact .refl newId s
  | cons svc services ih =>
    rw [List.foldlM_cons] at h
    obtain ⟨s₁, hput, h⟩ := bind_eq_ok h
    exact (putService_observes hinj hput).trans (ih h)

theorem linkFinding_extends (hinj : Function.Injective newId) {f f' : TrackedFinding}
    {assets' : List Asset} (h : linkFinding newId v programId f s = .ok (assets', f')) :
    Extends newId s.gone s.rows.assets assets' ∧ f'.toFinding = f.toFinding ∧
      (f.programId = programId → f.assetId = none → (findingSighting f').On assets') := by
  unfold linkFinding at h
  split at h
  · rename_i hskip
    obtain ⟨rfl, rfl⟩ := Prod.mk.inj (Except.ok.inj h)
    refine ⟨.refl newId s.gone s.rows.assets, rfl, fun _ hnone => ?_⟩
    rw [hnone] at hskip
    have hempty : orDefault f.asset "" = "" := by simpa using hskip
    have hkey : keyOf (orDefault f.asset "").toList none true = none := by
      rw [hempty]
      rfl
    change OnNode _ _ (keyOf _ _ _) f.assetId
    rw [hkey, hnone]
    rfl
  · obtain ⟨⟨assets₁, id⟩, hupsert, h⟩ := bind_eq_ok h
    obtain ⟨rfl, rfl⟩ := Prod.mk.inj (Except.ok.inj h)
    obtain ⟨hgrown, hon⟩ := upsert_extends hinj hupsert
    refine ⟨hgrown, rfl, fun hprogram _ => ?_⟩
    change OnNode _ f.programId _ _
    rw [hprogram]
    exact hon

/-- A finding that is stored new, or in place of one. -/
theorem finding_observes {f : TrackedFinding} {assets' : List Asset}
    {findings : Table TrackedFinding} {history : List HistoryEntry}
    (hgrown : Extends newId s.gone s.rows.assets assets')
    (hrows : ∀ g ∈ findings.rows, g ∈ s.findings.rows ∨ g = f)
    (hf : s.Sights (findingSighting f) ∨ (findingSighting f).On assets') :
    Observes newId s
      { s with rows := { s.rows with assets := assets' }, findings, history } := by
  refine ⟨rfl, hgrown, fun x hx => ?_⟩
  cases hx with
  | recon hx hsource => exact .inl (.recon hx hsource)
  | scan hx => exact .inl (.scan hx)
  | service hx => exact .inl (.service hx)
  | @finding g hg =>
    rcases hrows g hg with hg | rfl
    · exact .inl (.finding hg)
    · exact hf

theorem addFinding_observes [WordTable] (hinj : Function.Injective newId) {p : FindingCreate}
    (h : addFinding newId v programId p s = .ok s') : Observes newId s s' := by
  obtain ⟨_, assets', f, findings, -, hlink, hinsert, rfl⟩ := addFinding_eq_ok h
  obtain ⟨hgrown, -, hon⟩ := linkFinding_extends hinj hlink
  refine finding_observes hgrown (fun g hg => ?_) (.inr (hon rfl rfl))
  rw [Table.rows_of_insert hinsert] at hg
  exact (List.mem_append.mp hg).imp_right List.mem_singleton.mp

omit [Unicode] in
theorem mem_put {t : Table TrackedFinding} {f g : TrackedFinding} (h : g ∈ (t.put f).rows) :
    g ∈ t.rows ∨ g = f := by
  obtain ⟨x, hx, rfl⟩ := List.mem_map.mp h
  split
  · exact .inr rfl
  · exact .inl hx

theorem updateFinding_observes [WordTable] (hinj : Function.Injective newId) {findingId : String}
    {u : FindingUpdate} (h : updateFinding newId v programId findingId u s = .ok s') :
    Observes newId s s' := by
  obtain ⟨_, old, title, assets', f, -, hget, hprogram, hlink, rfl⟩ := updateFinding_eq_ok h
  unfold relinkFinding at hlink
  split at hlink
  · rename_i hsent
    obtain ⟨hgrown, -, hon⟩ := linkFinding_extends hinj hlink
    exact finding_observes hgrown (fun g hg => mem_put hg) (.inr (hon hprogram (if_pos hsent)))
  · rename_i hkept
    obtain ⟨rfl, rfl⟩ := Prod.mk.inj (Except.ok.inj hlink)
    have hnone : u.asset = none := by simpa using hkept
    -- neither the text nor its node changes
    have hsame : findingSighting (u.amend title old) = findingSighting old := by
      simp [findingSighting, FindingUpdate.amend, hnone]
    refine finding_observes (.refl newId s.gone s.rows.assets) (fun g hg => mem_put hg) (.inl ?_)
    rw [hsame]
    exact .finding (Table.mem_of_get? hget)

/-- Fewer services and findings. -/
theorem fewer_observes {services : List Service} {findings : Table TrackedFinding}
    {history : List HistoryEntry} (hservices : services ⊆ s.services)
    (hfindings : findings.rows ⊆ s.findings.rows) :
    Observes newId s { s with services, findings, history } := by
  refine ⟨rfl, .refl newId s.gone s.rows.assets, fun x hx => .inl ?_⟩
  cases hx with
  | recon hx hsource => exact .recon hx hsource
  | scan hx => exact .scan hx
  | service hx => exact .service (hservices hx)
  | finding hf => exact .finding (hfindings hf)

omit [Unicode] in
/-- The nodes that go with an engagement count as drawn. -/
theorem drop_drawn (id : String) (s : Tables) :
    (dropEngagement id s).gone + (dropEngagement id s).rows.assets.length =
      s.gone + s.rows.assets.length := by
  have hcount := List.length_eq_countP_add_countP (fun a : Asset => a.programId == id)
    (l := s.rows.assets)
  have hkept : (dropEngagement id s).rows.assets.length =
      s.rows.assets.countP fun a => a.programId != id := List.countP_eq_length_filter.symm
  have hgone : (dropEngagement id s).gone =
      s.gone + s.rows.assets.countP fun a => a.programId == id := rfl
  have hother : (s.rows.assets.countP fun a => a.programId != id) =
      s.rows.assets.countP fun a => decide ¬(a.programId == id) = true :=
    List.countP_congr fun a _ => by simp
  omega

omit [Unicode] in
/-- The rows of other engagements stay on their nodes. -/
theorem OnNode.drop {id : String} {key : Option Text} {assetId : Option String}
    (h : OnNode s.rows.assets programId key assetId) (hother : programId ≠ id) :
    OnNode (dropEngagement id s).rows.assets programId key assetId := by
  cases key with
  | none => exact h
  | some key =>
    obtain ⟨a, ha, hkey, hid⟩ := h
    have hprogram : a.programId = programId := congrArg Prod.fst hkey
    exact ⟨a, List.mem_filter.mpr ⟨ha, by simpa [hprogram] using hother⟩, hkey, hid⟩

/-- An engagement that is deleted takes its rows and its nodes along. -/
theorem Charted.drop (h : Charted newId s) (id : String) :
    Charted newId (dropEngagement id s) := by
  have hsublist : (dropEngagement id s).rows.assets.Sublist s.rows.assets := List.filter_sublist
  refine ⟨⟨h.nodes.keys.sublist (hsublist.map _), h.nodes.ids.sublist (hsublist.map _),
    fun a ha => ?_⟩, fun x hx => ?_⟩
  · rw [drop_drawn]
    exact h.nodes.drawn a (hsublist.subset ha)
  · have hkept : s.Sights x ∧ x.programId ≠ id := by
      cases hx with
      | recon hx hsource =>
        obtain ⟨hx, hother⟩ := List.mem_filter.mp hx
        exact ⟨.recon hx hsource, bne_iff_ne.mp hother⟩
      | scan hx =>
        obtain ⟨hx, hother⟩ := List.mem_filter.mp hx
        exact ⟨.scan hx, bne_iff_ne.mp hother⟩
      | service hx =>
        obtain ⟨hx, hother⟩ := List.mem_filter.mp hx
        exact ⟨.service hx, bne_iff_ne.mp hother⟩
      | finding hf =>
        obtain ⟨hf, hother⟩ := List.mem_filter.mp hf
        exact ⟨.finding hf, bne_iff_ne.mp hother⟩
    exact OnNode.drop (h.linked x hkept.1) hkept.2

/-! ## Runs -/

variable [WordTable] [Sanitizer]

theorem Charted.run (hinj : Function.Injective newId) (h : Charted newId s) {i : Input}
    (hi : i.run newId s = .ok s') : Charted newId s' := by
  cases i with
  | importFile v programId jobId tool items => exact h.observes (importFile_observes hinj hi)
  | createServices v programId services jobId =>
    exact h.observes (foldlM_observes hinj (bulkCreateServices_eq_ok hi))
  | deleteService v programId serviceId =>
    obtain ⟨services, hservices, rfl⟩ := deleteService_eq_ok hi
    exact h.observes (fewer_observes hservices.subset (List.Subset.refl _))
  | addFinding v programId p => exact h.observes (addFinding_observes hinj hi)
  | updateFinding v programId findingId u => exact h.observes (updateFinding_observes hinj hi)
  | deleteFinding v programId findingId =>
    obtain ⟨f, rfl⟩ := deleteFinding_eq_ok hi
    exact h.observes (fewer_observes (List.Subset.refl _) List.filter_sublist.subset)
  | addActivity v programId findingId body =>
    obtain ⟨_, f, _, _, -, -, -, rfl⟩ := addActivity_eq_ok hi
    exact h.observes (fewer_observes (List.Subset.refl _) (List.Subset.refl _))
  | dropEngagement id =>
    obtain rfl := Except.ok.inj hi
    exact h.drop id

/-- What holds at the start and of what every accepted request stores holds after every run. -/
theorem after_induction (newId : ℕ → String) (P : Tables → Prop)
    (hstep : ∀ {i : Input} {s s' : Tables}, P s → i.run newId s = .ok s' → P s')
    (inputs : List Input) {s : Tables} (hs : P s) : P (after newId inputs s) := by
  induction inputs generalizing s with
  | nil => exact hs
  | cons i inputs ih =>
    refine ih ?_
    unfold step
    cases hi : i.run newId s with
    | error e => exact hs
    | ok s' => exact hstep hs hi

theorem after_charted (hinj : Function.Injective newId) (inputs : List Input) :
    Charted newId (after newId inputs .empty) :=
  after_induction newId (Charted newId) (fun h hi => h.run hinj hi) inputs (.empty newId)

/-- Observations meet, over all runs of imports, services and findings. A row is linked exactly
when what it observed can be classified; two linked rows are on one node exactly when they
observed the same key in the same engagement; and the rows of a node are all those that observed
its key. -/
theorem surface_correlated (hinj : Function.Injective newId) (inputs : List Input) :
    (∀ x ∈ (after newId inputs .empty).sightings, x.assetId.isSome = x.key.isSome) ∧
      (∀ x ∈ (after newId inputs .empty).sightings,
        ∀ y ∈ (after newId inputs .empty).sightings, x.key.isSome = true →
          (x.assetId = y.assetId ↔ x.programId = y.programId ∧ x.key = y.key)) ∧
      ∀ x ∈ (after newId inputs .empty).sightings,
        ∀ a ∈ (after newId inputs .empty).rows.assets,
          x.assetId = some a.id ↔
            x.programId = a.programId ∧ x.key = some a.identity.canonicalKey := by
  have hcharted := after_charted hinj inputs
  have hon : ∀ x ∈ (after newId inputs .empty).sightings,
      x.On (after newId inputs .empty).rows.assets := fun x hx =>
    hcharted.linked x (mem_sightings.mp hx)
  have hnode : ∀ x ∈ (after newId inputs .empty).sightings,
      ∀ a ∈ (after newId inputs .empty).rows.assets, x.assetId = some a.id ↔
        x.programId = a.programId ∧ x.key = some a.identity.canonicalKey := by
    intro x hx a ha
    have hx := hon x hx
    unfold Sighting.On OnNode at hx
    split at hx
    · rename_i hkey
      simp [hx, hkey]
    · rename_i key hkey
      obtain ⟨b, hb, hb', hid⟩ := hx
      obtain ⟨hprogram, hcanonical⟩ := Prod.mk.inj hb'
      rw [hid, hkey, ← hprogram, ← hcanonical, Option.some.injEq, Option.some.injEq]
      constructor
      · intro hsame
        obtain rfl := List.inj_on_of_nodup_map hcharted.nodes.ids hb ha hsame
        exact ⟨rfl, rfl⟩
      · rintro ⟨hprogram, hcanonical⟩
        have hsame : nodeKey b = nodeKey a := Prod.ext hprogram hcanonical
        rw [List.inj_on_of_nodup_map hcharted.nodes.keys hb ha hsame]
  have hlinked : ∀ x ∈ (after newId inputs .empty).sightings, x.key.isSome = true →
      ∃ a ∈ (after newId inputs .empty).rows.assets, x.assetId = some a.id := by
    intro x hx hkey
    have hx := hon x hx
    obtain ⟨key, hkey⟩ := Option.isSome_iff_exists.mp hkey
    unfold Sighting.On at hx
    rw [hkey] at hx
    obtain ⟨a, ha, -, hid⟩ := hx
    exact ⟨a, ha, hid⟩
  refine ⟨fun x hx => ?_, fun x hx y hy hkey => ?_, hnode⟩
  · cases hkey : x.key with
    | none =>
      have hx := hon x hx
      unfold Sighting.On at hx
      rw [hkey] at hx
      exact congrArg Option.isSome hx
    | some key =>
      obtain ⟨a, -, hid⟩ := hlinked x hx (by rw [hkey]; rfl)
      rw [hid]
      rfl
  · obtain ⟨a, ha, hid⟩ := hlinked x hx hkey
    obtain ⟨hprogram, hcanonical⟩ := (hnode x hx a ha).mp hid
    rw [hid, eq_comm, hnode y hy a ha, hprogram, hcanonical, eq_comm, @eq_comm _ y.key]

omit [Unicode] [WordTable] [Sanitizer] in
theorem zero_lt_maxWall : 0 < maxWall := by decide

omit [Unicode] [WordTable] [Sanitizer] in
/-- A visit of the owner to an engagement. -/
def ownerVisit : Visit where
  db := { Db.empty with engagements := .single {
    id := "e1", ownerGithubId := "u1", orgId := none, engagementType := none
    engagementStatus := none, startsAt := none, endsAt := none, stopWorkAt := none
    maxRequestRate := none, concurrencyLimit := none, targetLimit := none, targetsSpent := 0
    durationLimit := none, durationAllocated := 0, managedAuthorityRevision := 0 } }
  user := ⟨"u1", "full", none⟩
  evidence := []
  now := 0
  wall := ⟨0, none, zero_lt_maxWall⟩
  uuid := Nat.repr

omit [Unicode] [WordTable] [Sanitizer] in
/-- A finding on a host, and an address on the same host from a tool. -/
def observedTwice : List Input := [
  .addFinding ownerVisit "e1"
    ⟨"IDOR", "high", some "https://API.acme.com./v1", "new", none, none, none, none⟩,
  .importFile ownerVisit "e1" none .gau [[("url", .str "http://api.acme.com:8080/a")]]]

omit [Unicode] [WordTable] [Sanitizer] in
/-- The two meet on one node. -/
theorem surface_correlated_twice : ∃ x y, @Tables.sightings Unicode.ascii
    (@after Unicode.ascii WordTable.ascii ⟨id⟩ Nat.repr observedTwice .empty) = [x, y] ∧
      x.assetId = y.assetId := by
  have hsights : (@Tables.sightings Unicode.ascii
      (@after Unicode.ascii WordTable.ascii ⟨id⟩ Nat.repr observedTwice .empty)).map
        (fun x => (x.programId, x.key)) =
      [("e1", some "domain:api.acme.com".toList), ("e1", some "domain:api.acme.com".toList)] := by
    decide +kernel
  obtain ⟨x, rest, hsightings, hx, hrest⟩ := List.map_eq_cons_iff.mp hsights
  obtain ⟨y, rest, rfl, hy, hnil⟩ := List.map_eq_cons_iff.mp hrest
  obtain rfl := List.map_eq_nil_iff.mp hnil
  obtain ⟨hprogram, hkey⟩ := Prod.mk.inj (hx.trans hy.symm)
  have hinj : Function.Injective Nat.repr := fun _ _ => Nat.repr_inj.mp
  obtain ⟨-, hmeet, -⟩ :=
    @surface_correlated Unicode.ascii Nat.repr WordTable.ascii ⟨id⟩ hinj observedTwice
  have hsome : x.key.isSome = true := by
    rw [(Prod.mk.inj hx).2]
    rfl
  refine ⟨x, y, hsightings, (hmeet x ?_ y ?_ hsome).mpr ⟨hprogram, hkey⟩⟩
  · rw [hsightings]
    exact List.mem_cons_self ..
  · rw [hsightings]
    exact List.mem_cons_of_mem _ (List.mem_cons_self ..)

end VardrMap.Surface
