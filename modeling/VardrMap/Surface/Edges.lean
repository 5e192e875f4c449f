import VardrMap.Surface.Links

/-!
# The services of a host

A service is stored once under its host, port and protocol, and the node of its host has one edge
to its own node. No other edges are ever drawn.
-/
namespace VardrMap.Surface
open Lib Assets Parsers Policy Imports Sharing

variable [Unicode] {newId : ℕ → String} {s s' : Tables} {v : Visit} {programId : String}

/-! ## Edges -/

/-- An edge from the node of a host to that of a service on it. -/
structure Joins (assets : List Asset) (programId : String) (host : Text) (port : ℕ)
    (e : AssetRelationship) : Prop where
  program : e.programId = programId
  relationship : e.relationship = "exposes"
  source : OnNode assets programId (keyOf host none false) (some e.srcAssetId)
  target : OnNode assets programId (keyOf host (some port) false) (some e.dstAssetId)

/-- Services and edges are in order. -/
structure Exposed (s : Tables) : Prop where
  once : (s.services.map Service.key).Nodup
  edges : (s.edges.map AssetRelationship.key).Nodup
  joins : ∀ e ∈ s.edges, e.srcAssetId ≠ e.dstAssetId ∧
    ∃ host port, Joins s.rows.assets e.programId host port e
  exposed : ∀ x ∈ s.services, keyOf x.host none false ≠ keyOf x.host (some x.port) false →
    ∃ e ∈ s.edges, Joins s.rows.assets x.programId x.host x.port e

theorem Joins.mono {assets assets' : List Asset} {host : Text} {port : ℕ} {e : AssetRelationship}
    (h : Joins assets programId host port e) (hkeeps : Keeps assets assets') :
    Joins assets' programId host port e :=
  ⟨h.program, h.relationship, h.source.mono hkeeps, h.target.mono hkeeps⟩

/-- Only its ends matter. -/
theorem Joins.seen {assets : List Asset} {host : Text} {port : ℕ} {e e' : AssetRelationship}
    (h : Joins assets programId host port e) (hprogram : e'.programId = e.programId)
    (hkey : e'.key = e.key) : Joins assets programId host port e' := by
  obtain ⟨hsource, htarget, hrelationship⟩ : e'.srcAssetId = e.srcAssetId ∧
      e'.dstAssetId = e.dstAssetId ∧ e'.relationship = e.relationship := by
    simpa [AssetRelationship.key] using hkey
  exact ⟨hprogram.trans h.program, hrelationship.trans h.relationship, hsource ▸ h.source,
    htarget ▸ h.target⟩

theorem Exposed.empty : Exposed .empty :=
  ⟨List.nodup_nil, List.nodup_nil, fun _ he => absurd he List.not_mem_nil,
    fun _ hx => absurd hx List.not_mem_nil⟩

/-- More nodes, the same edges and no new services. -/
theorem Exposed.keeps (h : Exposed s) (hkeeps : Keeps s.rows.assets s'.rows.assets)
    (hservices : s'.services.Sublist s.services) (hedges : s'.edges = s.edges) : Exposed s' where
  once := h.once.sublist (hservices.map _)
  edges := hedges ▸ h.edges
  joins := fun e he => by
    obtain ⟨hne, host, port, hjoins⟩ := h.joins e (hedges ▸ he)
    exact ⟨hne, host, port, hjoins.mono hkeeps⟩
  exposed := fun x hx hkeys => by
    obtain ⟨e, he, hjoins⟩ := h.exposed x (hservices.subset hx) hkeys
    exact ⟨e, hedges ▸ he, hjoins.mono hkeeps⟩

/-! ## One edge -/

section
omit [Unicode]
variable {edges : List AssetRelationship} {src dst relationship source : String}

/-- What `relate` leaves of an edge. -/
theorem mem_relate {e : AssetRelationship}
    (he : e ∈ relate v programId edges src dst relationship source) :
    (∃ e₀ ∈ edges, e.key = e₀.key ∧ e.programId = e₀.programId) ∨
      src ≠ dst ∧ e.key = (src, dst, relationship) ∧ e.programId = programId := by
  unfold relate at he
  dsimp only at he
  split at he
  · exact .inl ⟨e, he, rfl, rfl⟩
  · rename_i hne
    split at he
    · rcases mem_updateFirst he with he | ⟨e₀, he₀, -, rfl⟩
      · exact .inl ⟨e, he, rfl, rfl⟩
      · exact .inl ⟨e₀, he₀, rfl, rfl⟩
    · rcases List.mem_append.mp he with he | he
      · exact .inl ⟨e, he, rfl, rfl⟩
      · obtain rfl := List.mem_singleton.mp he
        exact .inr ⟨by simpa using hne, rfl, rfl⟩

/-- The keys after `relate`: one more when two nodes are related that were not. -/
theorem relate_keys (v : Visit) (programId : String) (edges : List AssetRelationship)
    (src dst relationship source : String) :
    (relate v programId edges src dst relationship source).map AssetRelationship.key =
      edges.map AssetRelationship.key ++
        if src = dst ∨ (src, dst, relationship) ∈ edges.map AssetRelationship.key then []
        else [(src, dst, relationship)] := by
  unfold relate
  dsimp only
  by_cases hsame : src = dst
  · simp [hsame]
  · rw [if_neg (by simpa using hsame)]
    by_cases hfound : (src, dst, relationship) ∈ edges.map AssetRelationship.key
    · have hany : (edges.any fun e => e.key == (src, dst, relationship)) = true := by
        obtain ⟨e, he, hkey⟩ := List.mem_map.mp hfound
        exact List.any_eq_true.mpr ⟨e, he, beq_iff_eq.mpr hkey⟩
      rw [if_pos hany, if_pos (.inr hfound), List.append_nil]
      refine @map_key_updateFirst _ _ _ AssetRelationship.key _ _ (fun e => ?_) edges
      rfl
    · have hany : ¬(edges.any fun e => e.key == (src, dst, relationship)) = true := by
        rw [List.any_eq_true]
        rintro ⟨e, he, hkey⟩
        exact hfound (List.mem_map.mpr ⟨e, he, beq_iff_eq.mp hkey⟩)
      rw [if_neg hany, if_neg (not_or.mpr ⟨hsame, hfound⟩), List.map_append, List.map_singleton]
      rfl

theorem relate_nodup (h : (edges.map AssetRelationship.key).Nodup) :
    ((relate v programId edges src dst relationship source).map
      AssetRelationship.key).Nodup := by
  rw [relate_keys]
  split
  · rwa [List.append_nil]
  · rename_i hnew
    rw [List.nodup_append_comm, List.singleton_append, List.nodup_cons]
    exact ⟨fun hmem => hnew (.inr hmem), h⟩

/-- No edge is lost. -/
theorem exists_relate_of_mem (v : Visit) (programId src dst relationship source : String)
    {e : AssetRelationship} (he : e ∈ edges) :
    ∃ e' ∈ relate v programId edges src dst relationship source, e'.key = e.key := by
  have hmem : e.key ∈
      (relate v programId edges src dst relationship source).map AssetRelationship.key := by
    rw [relate_keys]
    exact List.mem_append_left _ (List.mem_map_of_mem he)
  exact List.mem_map.mp hmem

/-- Different nodes have an edge afterwards. -/
theorem exists_relate (v : Visit) (programId : String) (edges : List AssetRelationship)
    (relationship source : String) (hne : src ≠ dst) :
    ∃ e ∈ relate v programId edges src dst relationship source,
      e.key = (src, dst, relationship) := by
  have hmem : (src, dst, relationship) ∈
      (relate v programId edges src dst relationship source).map AssetRelationship.key := by
    rw [relate_keys]
    split
    · rename_i hfound
      exact List.mem_append_left _ (hfound.resolve_left hne)
    · exact List.mem_append_right _ (List.mem_singleton_self _)
  exact List.mem_map.mp hmem

end

/-! ## Services -/

omit [Unicode] in
/-- An identifier is that of one node. -/
theorem OnNode.inj {assets : List Asset} {programId' : String} {key key' : Option Text}
    {id : String} (hids : (assets.map Asset.id).Nodup) (h : OnNode assets programId key (some id))
    (h' : OnNode assets programId' key' (some id)) : programId = programId' ∧ key = key' := by
  cases key with
  | none => cases h
  | some key =>
    cases key' with
    | none => cases h'
    | some key' =>
      obtain ⟨a, ha, hkey, hid⟩ := h
      obtain ⟨b, hb, hkey', hid'⟩ := h'
      have hsame : a.id = b.id := (Option.some.inj hid).symm.trans (Option.some.inj hid')
      obtain rfl := List.inj_on_of_nodup_map hids ha hb hsame
      obtain ⟨hprogram, hcanonical⟩ := Prod.mk.inj (hkey.symm.trans hkey')
      exact ⟨hprogram, congrArg some hcanonical⟩

omit [Unicode] in
theorem OnNode.isSome {assets : List Asset} {key : Option Text} {id : Option String}
    (h : OnNode assets programId key id) : id.isSome = key.isSome := by
  cases key with
  | none => exact congrArg Option.isSome h
  | some key =>
    obtain ⟨a, -, -, rfl⟩ := h
    rfl

/-- Whether a text can be classified does not depend on the port. -/
theorem keyOf_isSome (observed : Text) (port : Option ℕ) (hostLevel : Bool) :
    (keyOf observed port hostLevel).isSome = (keyOf observed none hostLevel).isSome := by
  unfold keyOf parse Assets.effectivePort
  dsimp only
  by_cases hempty : (Text.strip observed).isEmpty = true
  · simp only [if_pos hempty]
  simp only [if_neg hempty]
  cases spelledHost observed with
  | none => rfl
  | some host =>
    cases Assets.portDigits (hostPort (afterScheme (Text.strip observed))) with
    | some digits => rfl
    | none =>
      simp only [bind, Except.bind]
      by_cases hhost : host.isEmpty = true
      · simp only [if_pos hhost]
      · simp only [if_neg hhost]
        by_cases hip : (Ip.address host).isSome = true
        · simp only [if_pos hip]
          rfl
        · simp only [if_neg hip]
          by_cases hname : (host.contains ' ' || !host.contains '.') = true
          · simp only [if_pos hname]
          · simp only [if_neg hname]
            rfl

/-- What `expose` leaves: every edge, and one between the nodes of a new service. -/
theorem Exposed.expose (h : Exposed s) {svc : ServiceIn} {assets : List Asset}
    {host service : Option String} (id : String) (hids : (assets.map Asset.id).Nodup)
    (hkeeps : Keeps s.rows.assets assets)
    (hhost : OnNode assets programId (keyOf svc.host none false) host)
    (hservice : OnNode assets programId (keyOf svc.host (some svc.port) false) service)
    (hnew : svc.key programId ∉ s.services.map Service.key) :
    Exposed { s with
      rows := { s.rows with assets }
      services := s.services ++ [svc.row v programId id service]
      edges := Surface.expose v programId s.edges svc.sourceText host service } := by
  have honce : ((s.services ++ [svc.row v programId id service]).map Service.key).Nodup := by
    rw [List.map_append, List.map_singleton, List.nodup_append_comm, List.singleton_append,
      List.nodup_cons]
    exact ⟨hnew, h.once⟩
  have hold : ∀ e ∈ s.edges, e.srcAssetId ≠ e.dstAssetId ∧
      ∃ host port, Joins assets e.programId host port e := fun e he => by
    obtain ⟨hne, host, port, hjoins⟩ := h.joins e he
    exact ⟨hne, host, port, hjoins.mono hkeeps⟩
  have hsome : service.isSome = host.isSome := by
    rw [hhost.isSome, hservice.isSome, keyOf_isSome]
  cases host with
  | none =>
    obtain rfl : service = none := Option.not_isSome_iff_eq_none.mp (by simp [hsome])
    refine ⟨honce, h.edges, hold, fun x hx hkeys => ?_⟩
    rcases List.mem_append.mp hx with hx | hx
    · obtain ⟨e, he, hjoins⟩ := h.exposed x hx hkeys
      exact ⟨e, he, hjoins.mono hkeeps⟩
    · -- nothing that cannot be classified has two keys
      obtain rfl := List.mem_singleton.mp hx
      have hnone : ∀ {port : Option ℕ}, OnNode assets programId (keyOf svc.host port false) none →
          keyOf svc.host port false = none := fun hon =>
        Option.not_isSome_iff_eq_none.mp (by simp [← hon.isSome])
      exact absurd ((hnone hhost).trans (hnone hservice).symm) hkeys
  | some src =>
    obtain ⟨dst, rfl⟩ := Option.isSome_iff_exists.mp hsome
    -- an edge that was drawn is one from before or the new one
    have hjoins : ∀ e ∈ relate v programId s.edges src dst "exposes" svc.sourceText,
        e.srcAssetId ≠ e.dstAssetId ∧
          ∃ host port, Joins assets e.programId host port e := fun e he => by
      rcases mem_relate he with ⟨e₀, he₀, hkey, hprogram⟩ | ⟨hne, hkey, hprogram⟩
      · obtain ⟨hne, host, port, hjoins⟩ := hold e₀ he₀
        have hjoins := hjoins.seen hprogram hkey
        obtain ⟨hsrc, hdst, -⟩ : e.srcAssetId = e₀.srcAssetId ∧ e.dstAssetId = e₀.dstAssetId ∧
            e.relationship = e₀.relationship := by
          simpa [AssetRelationship.key] using hkey
        rw [hprogram, hsrc, hdst]
        exact ⟨hne, host, port, hjoins⟩
      · obtain ⟨rfl, rfl, hrelationship⟩ : e.srcAssetId = src ∧ e.dstAssetId = dst ∧
            e.relationship = "exposes" := by
          simpa [AssetRelationship.key] using hkey
        exact ⟨hne, svc.host, svc.port, rfl, hrelationship, hprogram ▸ hhost, hprogram ▸ hservice⟩
    -- an edge is in the engagement of its nodes
    have hprogram : ∀ e ∈ relate v programId s.edges src dst "exposes" svc.sourceText,
        ∀ {programId' : String} {key : Option Text},
          OnNode assets programId' key (some e.srcAssetId) → e.programId = programId' :=
      fun e he {programId' key} hon => by
        obtain ⟨-, host, port, hjoins⟩ := hjoins e he
        exact (OnNode.inj hids hjoins.source hon).1
    refine ⟨honce, relate_nodup h.edges, hjoins, fun x hx hkeys => ?_⟩
    rcases List.mem_append.mp hx with hx | hx
    · obtain ⟨e, he, hold⟩ := h.exposed x hx hkeys
      have hold := hold.mono hkeeps
      obtain ⟨e', he', hkey⟩ :=
        exists_relate_of_mem v programId src dst "exposes" svc.sourceText he
      have hsrc : e'.srcAssetId = e.srcAssetId := congrArg Prod.fst hkey
      have hprogram' := hprogram e' he' (hsrc ▸ hold.source)
      exact ⟨e', he', hold.seen (hprogram'.trans hold.program.symm) hkey⟩
    · obtain rfl := List.mem_singleton.mp hx
      have hne : src ≠ dst := fun hsame =>
        hkeys (OnNode.inj hids hhost (hsame ▸ hservice)).2
      obtain ⟨e, he, hkey⟩ :=
        exists_relate v programId s.edges "exposes" svc.sourceText hne
      obtain ⟨rfl, rfl, hrelationship⟩ : e.srcAssetId = src ∧ e.dstAssetId = dst ∧
          e.relationship = "exposes" := by
        simpa [AssetRelationship.key] using hkey
      exact ⟨e, he, hprogram e he hhost, hrelationship, hhost, hservice⟩

/-- One posted service. -/
theorem Exposed.putService (hinj : Function.Injective newId) {svc : ServiceIn} (h : Exposed s)
    (hcharted : Charted newId s) (hput : putService newId v programId s svc = .ok s') :
    Exposed s' := by
  have hobserves := putService_observes hinj hput
  have hids := (hcharted.observes hobserves).nodes.ids
  have hkeeps := hobserves.grown.keeps
  rcases putService_eq_ok hput with ⟨existing, assets', assetId, -, -, rfl⟩ |
    ⟨assets₁, assets₂, host, service, hnone, hhost, hservice, rfl⟩
  · -- a stored service keeps its key, and with it the edge to its node
    have hkey := @map_key_updateFirst _ _ _ Service.key existing.key (svc.update v assetId)
      (fun x => rfl) s.services
    have hsame : Exposed { s with rows := { s.rows with assets := assets' } } :=
      h.keeps hkeeps (List.Sublist.refl _) rfl
    refine ⟨?_, hsame.edges, hsame.joins, fun x hx hkeys => ?_⟩
    · rw [hkey]
      exact h.once
    · rcases mem_updateFirst hx with hx | ⟨y, hy, -, rfl⟩
      · exact hsame.exposed x hx hkeys
      · exact hsame.exposed y hy hkeys
  · obtain ⟨-, honHost⟩ := node_extends hinj hhost
    obtain ⟨hgrown, honService⟩ := node_extends hinj hservice
    refine h.expose _ hids hkeeps (honHost.mono hgrown.keeps) honService fun hmem => ?_
    obtain ⟨x, hx, hkey⟩ := List.mem_map.mp hmem
    rw [List.find?_eq_none] at hnone
    exact hnone x hx (beq_iff_eq.mpr hkey)

/-- The services of other engagements keep their edges. -/
theorem Exposed.drop (h : Exposed s) (id : String) : Exposed (dropEngagement id s) where
  once := h.once.sublist (List.filter_sublist.map _)
  edges := h.edges.sublist (List.filter_sublist.map _)
  joins := fun e he => by
    obtain ⟨he, hother⟩ := List.mem_filter.mp he
    obtain ⟨hne, host, port, hjoins⟩ := h.joins e he
    have hother := bne_iff_ne.mp hother
    exact ⟨hne, host, port, hjoins.program, hjoins.relationship, hjoins.source.drop hother,
      hjoins.target.drop hother⟩
  exposed := fun x hx hkeys => by
    obtain ⟨hx, hother⟩ := List.mem_filter.mp hx
    have hother' := bne_iff_ne.mp hother
    obtain ⟨e, he, hjoins⟩ := h.exposed x hx hkeys
    refine ⟨e, List.mem_filter.mpr ⟨he, ?_⟩, hjoins.program, hjoins.relationship,
      hjoins.source.drop hother', hjoins.target.drop hother'⟩
    rw [hjoins.program]
    exact hother

/-! ## Runs -/

variable [WordTable] [Sanitizer]

omit [WordTable] [Sanitizer] in
theorem foldlM_exposed (hinj : Function.Injective newId) {services : List ServiceIn}
    (h : Charted newId s ∧ Exposed s)
    (hput : services.foldlM (Surface.putService newId v programId) s = .ok s') : Exposed s' := by
  induction services generalizing s with
  | nil =>
    obtain rfl := Except.ok.inj hput
    exact h.2
  | cons svc services ih =>
    rw [List.foldlM_cons] at hput
    obtain ⟨s₁, hfirst, hput⟩ := bind_eq_ok hput
    exact ih ⟨h.1.observes (putService_observes hinj hfirst), h.2.putService hinj h.1 hfirst⟩ hput

theorem Exposed.run (hinj : Function.Injective newId) (h : Charted newId s ∧ Exposed s)
    {i : Input} (hi : i.run newId s = .ok s') : Exposed s' := by
  cases i with
  | importFile v programId jobId tool items =>
    have hkeeps := (importFile_observes hinj hi).grown.keeps
    obtain ⟨imported, -, rfl⟩ := importFile_eq_ok hi
    exact h.2.keeps hkeeps (List.Sublist.refl _) rfl
  | createServices v programId services jobId =>
    exact foldlM_exposed hinj h (bulkCreateServices_eq_ok hi)
  | deleteService v programId serviceId =>
    obtain ⟨services, hservices, rfl⟩ := deleteService_eq_ok hi
    exact h.2.keeps (.refl s.rows.assets) hservices rfl
  | addFinding v programId p =>
    have hkeeps := (addFinding_observes hinj hi).grown.keeps
    obtain ⟨_, assets', f, findings, -, -, -, rfl⟩ := addFinding_eq_ok hi
    exact h.2.keeps hkeeps (List.Sublist.refl _) rfl
  | updateFinding v programId findingId u =>
    have hkeeps := (updateFinding_observes hinj hi).grown.keeps
    obtain ⟨_, old, title, assets', f, -, -, -, -, rfl⟩ := updateFinding_eq_ok hi
    exact h.2.keeps hkeeps (List.Sublist.refl _) rfl
  | deleteFinding v programId findingId =>
    obtain ⟨f, rfl⟩ := deleteFinding_eq_ok hi
    exact h.2.keeps (.refl s.rows.assets) (List.Sublist.refl _) rfl
  | addActivity v programId findingId body =>
    obtain ⟨_, f, _, _, -, -, -, rfl⟩ := addActivity_eq_ok hi
    exact h.2.keeps (.refl s.rows.assets) (List.Sublist.refl _) rfl
  | dropEngagement id =>
    obtain rfl := Except.ok.inj hi
    exact h.2.drop id

/-- Services and edges, over all runs. A service is stored once under its host, port and protocol,
and an edge once between two nodes; every edge goes from the node of some host to that of a
service on it, in the engagement of both; and a service whose node is not that of its host has
such an edge to it. -/
theorem services_exposed (hinj : Function.Injective newId) (inputs : List Input) :
    ((after newId inputs .empty).services.map Service.key).Nodup ∧
      ((after newId inputs .empty).edges.map AssetRelationship.key).Nodup ∧
      (∀ e ∈ (after newId inputs .empty).edges, e.srcAssetId ≠ e.dstAssetId ∧ ∃ host port,
        Joins (after newId inputs .empty).rows.assets e.programId host port e) ∧
      ∀ x ∈ (after newId inputs .empty).services,
        keyOf x.host none false ≠ keyOf x.host (some x.port) false →
          ∃ e ∈ (after newId inputs .empty).edges,
            Joins (after newId inputs .empty).rows.assets x.programId x.host x.port e := by
  have hrun : Charted newId (after newId inputs .empty) ∧ Exposed (after newId inputs .empty) :=
    after_induction newId (fun s => Charted newId s ∧ Exposed s)
      (fun h hi => ⟨h.1.run hinj hi, Exposed.run hinj h hi⟩) inputs ⟨.empty newId, .empty⟩
  obtain ⟨-, honce, hedges, hjoins, hexposed⟩ := hrun
  exact ⟨honce, hedges, hjoins, hexposed⟩

omit [Unicode] [WordTable] [Sanitizer] in
theorem port_bounds : 1 ≤ 8443 ∧ 8443 ≤ 65535 := by decide

omit [Unicode] [WordTable] [Sanitizer] in
/-- A host with a port, posted twice. -/
def postedTwice : List Input :=
  let svc : ServiceIn :=
    ⟨"api.acme.com".toList, 8443, .tcp, none, none, none, none, none, port_bounds⟩
  [.createServices ownerVisit "e1" [svc, svc] none]

omit [Unicode] [WordTable] [Sanitizer] in
/-- It is stored once, and its host has an edge to it. -/
theorem services_exposed_twice : ∃ x e,
    (@after Unicode.ascii WordTable.ascii ⟨id⟩ Nat.repr postedTwice .empty).services = [x] ∧
      e ∈ (@after Unicode.ascii WordTable.ascii ⟨id⟩ Nat.repr postedTwice .empty).edges ∧
      e.relationship = "exposes" := by
  have hservices :
      (@after Unicode.ascii WordTable.ascii ⟨id⟩ Nat.repr postedTwice .empty).services.map
        (fun x => (x.host, x.port)) = [("api.acme.com".toList, 8443)] := by
    decide +kernel
  have hkeys : @keyOf Unicode.ascii "api.acme.com".toList none false ≠
      @keyOf Unicode.ascii "api.acme.com".toList (some 8443) false := by
    decide +kernel
  obtain ⟨x, rest, hstored, hx, hnil⟩ := List.map_eq_cons_iff.mp hservices
  obtain rfl := List.map_eq_nil_iff.mp hnil
  obtain ⟨hhost, hport⟩ := Prod.mk.inj hx
  have hinj : Function.Injective Nat.repr := fun _ _ => Nat.repr_inj.mp
  obtain ⟨-, -, -, hexposed⟩ :=
    @services_exposed Unicode.ascii Nat.repr WordTable.ascii ⟨id⟩ hinj postedTwice
  have hmem : x ∈
      (@after Unicode.ascii WordTable.ascii ⟨id⟩ Nat.repr postedTwice .empty).services := by
    rw [hstored]
    exact List.mem_cons_self ..
  rw [← hhost, ← hport] at hkeys
  obtain ⟨e, he, -, hrelationship, -⟩ := hexposed x hmem hkeys
  exact ⟨x, e, hstored, he, hrelationship⟩

end VardrMap.Surface
