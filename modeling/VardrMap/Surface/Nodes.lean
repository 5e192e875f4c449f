import VardrMap.Surface
import VardrMap.Imports.Repeats
import VardrMap.Imports.Sharing

/-!
# The nodes of the asset graph

Every observation asks for the node of its key. A node that was added once stays, with its
identifier, and no other is ever added under its key.
-/
namespace VardrMap.Surface
open Lib Assets Parsers Imports Sharing

variable [Unicode]

/-- The key of the node that an observed string is linked to, when it can be classified. -/
def keyOf (observed : Text) (port : Option ℕ) (hostLevel : Bool) : Option Text :=
  match parse observed port with
  | .ok (some identity) => some (if hostLevel then identity.hostLevel else identity).canonicalKey
  | _ => none

section
omit [Unicode]

/-- An engagement has one node under a key, and a node an identifier of its own, one of those
drawn so far. -/
structure Nodes (newId : ℕ → String) (drawn : ℕ) (assets : List Asset) : Prop where
  keys : (assets.map nodeKey).Nodup
  ids : (assets.map Asset.id).Nodup
  drawn : ∀ a ∈ assets, ∃ k < drawn, a.id = newId k

/-- Every node stays under its key and identifier. -/
def Keeps (assets assets' : List Asset) : Prop :=
  ∀ a ∈ assets, ∃ a' ∈ assets', nodeKey a' = nodeKey a ∧ a'.id = a.id

/-- What a row is linked to: the node of its key, and nothing without a key. -/
def OnNode (assets : List Asset) (programId : String) (key : Option Text) (id : Option String) :
    Prop :=
  match key with
  | none => id = none
  | some key => ∃ a ∈ assets, nodeKey a = (programId, key) ∧ id = some a.id

variable {newId : ℕ → String} {gone drawn : ℕ} {assets assets' assets'' : List Asset}
  {programId : String} {key : Option Text} {id : Option String}

theorem Keeps.refl (assets : List Asset) : Keeps assets assets := fun a ha => ⟨a, ha, rfl, rfl⟩

theorem Keeps.trans (h : Keeps assets assets') (h' : Keeps assets' assets'') :
    Keeps assets assets'' := fun a ha => by
  obtain ⟨b, hb, hkey, hid⟩ := h a ha
  obtain ⟨c, hc, hkey', hid'⟩ := h' b hb
  exact ⟨c, hc, hkey'.trans hkey, hid'.trans hid⟩

theorem OnNode.mono (h : OnNode assets programId key id) (hkeeps : Keeps assets assets') :
    OnNode assets' programId key id := by
  cases key with
  | none => exact h
  | some key =>
    obtain ⟨a, ha, hkey, rfl⟩ := h
    obtain ⟨b, hb, hkey', hid⟩ := hkeeps a ha
    exact ⟨b, hb, hkey'.trans hkey, congrArg some hid.symm⟩

/-- More nodes, with new identifiers, and the ones from before. -/
structure Extends (newId : ℕ → String) (gone : ℕ) (assets assets' : List Asset) : Prop where
  nodes : Nodes newId (gone + assets.length) assets → Nodes newId (gone + assets'.length) assets'
  keeps : Keeps assets assets'

theorem Extends.refl (newId : ℕ → String) (gone : ℕ) (assets : List Asset) :
    Extends newId gone assets assets := ⟨id, .refl assets⟩

theorem Extends.trans (h : Extends newId gone assets assets')
    (h' : Extends newId gone assets' assets'') : Extends newId gone assets assets'' :=
  ⟨fun hnodes => h'.nodes (h.nodes hnodes), h.keeps.trans h'.keeps⟩

/-! ## One node -/

/-- Seeing a node again changes neither keys nor identifiers. -/
theorem extends_touch (newId : ℕ → String) (gone : ℕ) (assets : List Asset) (f : Asset → Asset)
    (hkey : ∀ a, nodeKey (f a) = nodeKey a) (hid : ∀ a, (f a).id = a.id) :
    Extends newId gone assets (assets.map f) := by
  refine ⟨fun hnodes => ⟨?_, ?_, fun a ha => ?_⟩, fun a ha => ?_⟩
  · rw [List.map_map, show nodeKey ∘ f = nodeKey from funext hkey]
    exact hnodes.keys
  · rw [List.map_map, show Asset.id ∘ f = Asset.id from funext hid]
    exact hnodes.ids
  · obtain ⟨b, hb, rfl⟩ := List.mem_map.mp ha
    rw [hid, List.length_map]
    exact hnodes.drawn b hb
  · exact ⟨f a, List.mem_map_of_mem ha, hkey a, hid a⟩

/-- A new node under a new key. -/
theorem extends_append (hinj : Function.Injective newId) {a : Asset}
    (hkey : ∀ b ∈ assets, nodeKey b ≠ nodeKey a) (hid : a.id = newId (gone + assets.length)) :
    Extends newId gone assets (assets ++ [a]) := by
  refine ⟨fun hnodes => ⟨?_, ?_, fun b hb => ?_⟩, fun b hb => ?_⟩
  · rw [List.map_append, List.map_singleton, List.nodup_append_comm, List.singleton_append,
      List.nodup_cons]
    refine ⟨fun hmem => ?_, hnodes.keys⟩
    obtain ⟨b, hb, hsame⟩ := List.mem_map.mp hmem
    exact hkey b hb hsame
  · rw [List.map_append, List.map_singleton, List.nodup_append_comm, List.singleton_append,
      List.nodup_cons]
    refine ⟨fun hmem => ?_, hnodes.ids⟩
    obtain ⟨b, hb, hsame⟩ := List.mem_map.mp hmem
    obtain ⟨k, hk, hdrawn⟩ := hnodes.drawn b hb
    have hnew : k = gone + assets.length := hinj (hdrawn.symm.trans (hsame.trans hid))
    omega
  · rw [List.length_append, List.length_singleton]
    rcases List.mem_append.mp hb with hb | hb
    · obtain ⟨k, hk, hdrawn⟩ := hnodes.drawn b hb
      exact ⟨k, by omega, hdrawn⟩
    · rw [List.mem_singleton.mp hb]
      exact ⟨gone + assets.length, by omega, hid⟩
  · exact ⟨b, List.mem_append_left _ hb, rfl, rfl⟩

end

variable {newId : ℕ → String} {gone : ℕ} {assets assets' : List Asset} {programId : String}
  {id : Option String}

/-- What `upsert` does: the nodes stay, and the observation is on the node of its key. -/
theorem upsert_extends (hinj : Function.Injective newId) {observed : Text}
    {source confidence : String} {port : Option ℕ} {hostLevel : Bool} {now : Instant}
    (h : upsert assets programId observed source confidence port hostLevel now
      (newId (gone + assets.length)) = .ok (assets', id)) :
    Extends newId gone assets assets' ∧
      OnNode assets' programId (keyOf observed port hostLevel) id := by
  unfold upsert at h
  obtain ⟨parsed, hparse, h⟩ := bind_eq_ok h
  cases parsed with
  | none =>
    obtain ⟨rfl, rfl⟩ := Prod.mk.inj (Except.ok.inj h)
    refine ⟨.refl newId gone assets, ?_⟩
    simp only [keyOf, hparse]
    rfl
  | some identity =>
    dsimp only at h
    generalize hidentity : (if hostLevel then identity.hostLevel else identity) = i at h
    have hkey : keyOf observed port hostLevel = some i.canonicalKey := by
      simp only [keyOf, hparse, hidentity]
    rw [hkey]
    split at h
    · rename_i asset hfound
      obtain ⟨rfl, rfl⟩ := Prod.mk.inj (Except.ok.inj h)
      have hsame := List.find?_some hfound
      simp only [Bool.and_eq_true, beq_iff_eq] at hsame
      have htouch := extends_touch newId gone assets
        (fun a => if a.id == asset.id then { a with lastSeenAt := now } else a)
        (fun a => by split <;> rfl) (fun a => by split <;> rfl)
      obtain ⟨a', ha', hkey', hid'⟩ := htouch.keeps asset (List.mem_of_find?_eq_some hfound)
      refine ⟨htouch, a', ha', hkey'.trans ?_, congrArg some hid'.symm⟩
      exact Prod.ext hsame.1 hsame.2
    · rename_i hnone
      obtain ⟨rfl, rfl⟩ := Prod.mk.inj (Except.ok.inj h)
      refine ⟨extends_append hinj (fun b hb hsame => ?_) rfl, _,
        List.mem_append_right _ (List.mem_singleton_self _), rfl, rfl⟩
      rw [List.find?_eq_none] at hnone
      obtain ⟨hprogram, hcanonical⟩ := Prod.mk.inj hsame
      exact hnone b hb (by simp [hprogram, hcanonical])

/-! ## Imports -/

section
variable {c : Context}

/-- The identifiers of an import are those after all that were drawn. -/
def Draws (newId : ℕ → String) (gone : ℕ) (c : Context) : Prop :=
  c.assetId = fun n => newId (gone + n)

theorem link_extends (hinj : Function.Injective newId) (hc : Draws newId gone c) {source : String}
    {observed : Text} (h : link c source assets observed = .ok (assets', id)) :
    Extends newId gone assets assets' ∧
      OnNode assets' c.programId (keyOf observed none true) id := by
  unfold link at h
  rw [hc] at h
  exact upsert_extends hinj h

/-- Rows that are linked in turn are on the nodes of what they are linked by. -/
theorem linkAssets_extends {α : Type} (hinj : Function.Injective newId) (hc : Draws newId gone c)
    {source : String} {observed : α → Text} {rows rows' : List (Imports.Stored α)}
    (hrows : ∀ x ∈ rows, x.assetId = none)
    (h : linkAssets c source observed assets rows = .ok (assets', rows')) :
    Extends newId gone assets assets' ∧ ∀ x' ∈ rows', (∃ x ∈ rows, x'.row = x.row) ∧
      OnNode assets' c.programId (keyOf (observed x'.row) none true) x'.assetId := by
  induction rows generalizing assets rows' with
  | nil =>
    obtain ⟨rfl, rfl⟩ := Prod.mk.inj (Except.ok.inj h)
    exact ⟨.refl newId gone assets, fun x hx => absurd hx List.not_mem_nil⟩
  | cons x rows ih =>
    obtain ⟨⟨assets₁, id⟩, hlink, h⟩ := bind_eq_ok h
    obtain ⟨⟨assets₂, rows₂⟩, hrest, h⟩ := bind_eq_ok h
    obtain ⟨rfl, rfl⟩ := Prod.mk.inj (Except.ok.inj h)
    obtain ⟨hgrown, hon⟩ := link_extends hinj hc hlink
    obtain ⟨hgrown', hon'⟩ := ih (fun y hy => hrows y (List.mem_cons_of_mem _ hy)) hrest
    refine ⟨hgrown.trans hgrown', fun x' hx' => ?_⟩
    rcases List.mem_cons.mp hx' with rfl | hx'
    · refine ⟨⟨x, List.mem_cons_self .., rfl⟩, ?_⟩
      dsimp only
      rw [hrows x (List.mem_cons_self ..), Option.or_none]
      exact hon.mono hgrown'.keeps
    · obtain ⟨⟨y, hy, hrow⟩, hon'⟩ := hon' x' hx'
      exact ⟨⟨y, List.mem_cons_of_mem _ hy, hrow⟩, hon'⟩

/-- What an import does: the nodes stay, and the rows that it adds are on the nodes of what they
are linked by. Rows of probed hosts are written into and are left aside. -/
structure Places (newId : ℕ → String) (gone : ℕ) (programId : String) (s t : Store) : Prop where
  grown : Extends newId gone s.assets t.assets
  recon : ∀ x ∈ t.recon, x.row.source ≠ "httpx" → x ∈ s.recon ∨ x.row.programId = programId ∧
    OnNode t.assets programId (keyOf (reconObserved x.row) none true) x.assetId
  scan : ∀ x ∈ t.scan, x ∈ s.scan ∨ x.row.programId = programId ∧
    OnNode t.assets programId (keyOf (scanObserved x.row) none true) x.assetId

omit [Unicode] in
theorem fresh_unlinked {α : Type} {c : Context} (rows : List α) :
    ∀ x ∈ rows.map (fresh c), x.assetId = none := by
  intro x hx
  obtain ⟨row, -, rfl⟩ := List.mem_map.mp hx
  rfl

omit [Unicode] in
theorem row_of_fresh {α : Type} {c : Context} {rows : List α} {x y : Imports.Stored α}
    (hy : y ∈ rows.map (fresh c)) (hrow : x.row = y.row) : x.row ∈ rows := by
  obtain ⟨row, hmem, rfl⟩ := List.mem_map.mp hy
  rwa [hrow]

theorem importRecon_places (hinj : Function.Injective newId) (hc : Draws newId gone c)
    {source : String} {rows : List ReconItem} {s : Store} {imported : Imported}
    (hrows : ∀ r ∈ rows, r.programId = c.programId)
    (h : importRecon c source rows s = .ok imported) :
    Places newId gone c.programId s imported.store := by
  obtain ⟨⟨assets', added⟩, hlink, h⟩ := bind_eq_ok h
  obtain rfl := Except.ok.inj h
  obtain ⟨hgrown, hadded⟩ := linkAssets_extends hinj hc (fresh_unlinked _) hlink
  refine ⟨hgrown, fun x hx _ => ?_, fun x hx => .inl hx⟩
  rcases List.mem_append.mp hx with hx | hx
  · exact .inl hx
  · obtain ⟨⟨y, hy, hrow⟩, hon⟩ := hadded x hx
    have hnew := row_of_fresh hy hrow
    rw [dedupRecon_eq] at hnew
    exact .inr ⟨hrows _ ((dedupBy_sublist ..).subset hnew), hon⟩

theorem importScan_places (hinj : Function.Injective newId) (hc : Draws newId gone c)
    {source : String} {new : List ParsedScanItem} {newCount : ℕ} {s : Store} {imported : Imported}
    (hnew : ∀ r ∈ new, r.programId = c.programId)
    (h : importScan c source new newCount s = .ok imported) :
    Places newId gone c.programId s imported.store := by
  obtain ⟨⟨assets', added⟩, hlink, h⟩ := bind_eq_ok h
  obtain rfl := Except.ok.inj h
  obtain ⟨hgrown, hadded⟩ := linkAssets_extends hinj hc (fresh_unlinked _) hlink
  refine ⟨hgrown, fun x hx _ => .inl hx, fun x hx => ?_⟩
  rcases List.mem_append.mp hx with hx | hx
  · exact .inl hx
  · obtain ⟨⟨y, hy, hrow⟩, hon⟩ := hadded x hx
    exact .inr ⟨hnew _ (row_of_fresh hy hrow), hon⟩

/-! ## Probed hosts -/

theorem linkOne_extends (hinj : Function.Injective newId) (hc : Draws newId gone c)
    {x y : Imports.Stored ReconItem} (h : linkOne c assets x = .ok (assets', y)) :
    Extends newId gone assets assets' := by
  unfold linkOne at h
  split at h
  · obtain ⟨rfl, -⟩ := Prod.mk.inj (Except.ok.inj h)
    exact .refl newId gone assets
  · obtain ⟨⟨assets₁, id⟩, hlink, h⟩ := bind_eq_ok h
    obtain ⟨rfl, -⟩ := Prod.mk.inj (Except.ok.inj h)
    exact (link_extends hinj hc hlink).1

theorem probe_extends (hinj : Function.Injective newId) (hc : Draws newId gone c)
    {p p' : Probing} {item : ReconItem} (h : probe c p item = .ok p') :
    Extends newId gone p.assets p'.assets := by
  unfold probe at h
  dsimp only at h
  split at h
  · obtain ⟨⟨assets₁, y⟩, hlink, h⟩ := bind_eq_ok h
    obtain rfl := Except.ok.inj h
    exact linkOne_extends hinj hc hlink
  · obtain rfl := Except.ok.inj h
    exact .refl newId gone p.assets

theorem linkProbed_extends (hinj : Function.Injective newId) (hc : Draws newId gone c)
    {items : List ReconItem} {targets : List Target} {rows rows' : List (Imports.Stored ReconItem)}
    (h : linkProbed c items targets rows assets = .ok (rows', assets')) :
    Extends newId gone assets assets' := by
  induction items generalizing targets rows assets with
  | nil =>
    obtain ⟨-, rfl⟩ := Prod.mk.inj (Except.ok.inj h)
    exact .refl newId gone assets
  | cons item items ih =>
    cases targets with
    | nil =>
      obtain ⟨-, rfl⟩ := Prod.mk.inj (Except.ok.inj h)
      exact .refl newId gone assets
    | cons target targets =>
      rw [linkProbed] at h
      split at h
      · split at h
        · obtain ⟨⟨assets₁, y⟩, hlink, h⟩ := bind_eq_ok h
          exact (linkOne_extends hinj hc hlink).trans (ih h)
        · exact ih h
      · obtain ⟨⟨assets₁, id⟩, hlink, h⟩ := bind_eq_ok h
        exact (link_extends hinj hc hlink).1.trans (ih h)

omit [Unicode] in
/-- Only rows of probed hosts are written into. -/
def Spares (rows rows' : List (Imports.Stored ReconItem)) : Prop :=
  ∀ x ∈ rows', x.row.source ≠ "httpx" → x ∈ rows

/-- The positions hold rows of probed hosts. -/
def Probed (rows : List (Imports.Stored ReconItem)) (targets : List Target) : Prop :=
  ∀ t ∈ targets, t.added = true → ∃ x, rows[t.row]? = some x ∧ x.row.source = "httpx"

section
variable {rows rows' rows'' : List (Imports.Stored ReconItem)} {targets : List Target}
omit [Unicode]

theorem Spares.trans (h : Spares rows rows') (h' : Spares rows' rows'') : Spares rows rows'' :=
  fun x hx hsource => h x (h' x hx hsource) hsource

theorem spares_set {n : ℕ} {y : Imports.Stored ReconItem} (hy : y.row.source = "httpx") :
    Spares rows (rows.set n y) := fun x hx hsource => by
  rcases List.mem_or_eq_of_mem_set hx with hx | rfl
  · exact hx
  · exact absurd hy hsource

theorem spares_append {y : Imports.Stored ReconItem} (hy : y.row.source = "httpx") :
    Spares rows (rows ++ [y]) := fun x hx hsource => by
  rcases List.mem_append.mp hx with hx | hx
  · exact hx
  · exact absurd (List.mem_singleton.mp hx ▸ hy) hsource

theorem Probed.set (h : Probed rows targets) {n : ℕ} {y : Imports.Stored ReconItem}
    (hy : y.row.source = "httpx") : Probed (rows.set n y) targets := fun t ht hadded => by
  obtain ⟨x, hx, hsource⟩ := h t ht hadded
  by_cases hn : n = t.row
  · subst hn
    have hlt : t.row < rows.length := (List.getElem?_eq_some_iff.mp hx).1
    exact ⟨y, by simp [hlt], hy⟩
  · exact ⟨x, by rwa [List.getElem?_set_ne hn], hsource⟩

theorem Probed.append (h : Probed rows targets) (y : Imports.Stored ReconItem) :
    Probed (rows ++ [y]) targets := fun t ht hadded => by
  obtain ⟨x, hx, hsource⟩ := h t ht hadded
  exact ⟨x, getElem?_append_of_eq_some hx _, hsource⟩

theorem Probed.concat (h : Probed rows targets) {t : Target}
    (ht : t.added = true → ∃ x, rows[t.row]? = some x ∧ x.row.source = "httpx") :
    Probed rows (targets ++ [t]) := fun t' ht' hadded => by
  rcases List.mem_append.mp ht' with ht' | ht'
  · exact h t' ht' hadded
  · obtain rfl := List.mem_singleton.mp ht'
    exact ht hadded

end

/-- A probe writes into the row of its host. -/
theorem probe_spares {p p' : Probing} {item : ReconItem}
    (hindex : Indexed c.programId p.rows p.byHost) (hitem : IsProbed c.programId item)
    (hprobed : Probed p.rows p.targets) (h : probe c p item = .ok p') :
    Spares p.rows p'.rows ∧ Probed p'.rows p'.targets := by
  obtain ⟨n, x, y, hn, hx, hy, hrows, -, htargets⟩ | ⟨-, ⟨y, hy, hrows⟩, -, htargets⟩ :=
    probe_eq_ok hindex h
  · obtain ⟨z, hz, hsource, -⟩ := hindex.points _ n hn
    obtain rfl := Option.some.inj (hx.symm.trans hz)
    have hy : y.row.source = "httpx" := (congrArg ReconItem.source hy).trans hsource.2
    rw [hrows, htargets]
    exact ⟨spares_set hy, (hprobed.set hy).concat nofun⟩
  · have hy' : y.row.source = "httpx" := (congrArg ReconItem.source hy).trans hitem.2
    rw [hrows, htargets]
    exact ⟨spares_append hy', (hprobed.append y).concat fun _ => ⟨y, by simp, hy'⟩⟩

/-- The links at the end are written into rows of probed hosts. -/
theorem linkProbed_spares {items : List ReconItem} {targets : List Target}
    {rows rows' : List (Imports.Stored ReconItem)} (hprobed : Probed rows targets)
    (h : linkProbed c items targets rows assets = .ok (rows', assets')) : Spares rows rows' := by
  induction items generalizing targets rows assets with
  | nil =>
    obtain ⟨rfl, -⟩ := Prod.mk.inj (Except.ok.inj h)
    exact fun x hx _ => hx
  | cons item items ih =>
    cases targets with
    | nil =>
      obtain ⟨rfl, -⟩ := Prod.mk.inj (Except.ok.inj h)
      exact fun x hx _ => hx
    | cons target targets =>
      have hrest : Probed rows targets := fun t ht => hprobed t (List.mem_cons_of_mem _ ht)
      rw [linkProbed] at h
      split at h
      · rename_i hadded
        obtain ⟨x, hx, hsource⟩ := hprobed target (List.mem_cons_self ..) hadded
        rw [hx] at h
        obtain ⟨⟨assets₁, y⟩, hlink, h⟩ := bind_eq_ok h
        have hy : y.row.source = "httpx" :=
          (congrArg ReconItem.source (linkOne_row hlink)).trans hsource
        exact (spares_set hy).trans (ih (hrest.set hy) h)
      · obtain ⟨⟨assets₁, id⟩, -, h⟩ := bind_eq_ok h
        exact ih hrest h

theorem upsertReconHttpx_places (hinj : Function.Injective newId) (hc : Draws newId gone c)
    {items : List ReconItem} {s : Store} {result : Store × ℕ}
    (hitems : ∀ item ∈ items, IsProbed c.programId item)
    (h : upsertReconHttpx c items s = .ok result) :
    Places newId gone c.programId s result.1 := by
  obtain ⟨p, hall, h⟩ := bind_eq_ok h
  obtain ⟨⟨recon, assets'⟩, hlink, h⟩ := bind_eq_ok h
  obtain rfl := Except.ok.inj h
  let inv (_ : List ReconItem) (p : Probing) : Prop :=
    Indexed c.programId p.rows p.byHost ∧ Extends newId gone s.assets p.assets ∧
      Spares s.recon p.rows ∧ Probed p.rows p.targets
  have hstart : inv [] (probing c s) :=
    ⟨indexed_probing c s, .refl newId gone s.assets, fun x hx _ => hx,
      fun t ht => absurd ht List.not_mem_nil⟩
  have hend : inv ([] ++ items) p := by
    refine foldlM_induction hall hstart fun done item p p' hitem hp hstep => ?_
    obtain ⟨hindex, hgrown, hspares, hprobed⟩ := hp
    have hitem := hitems item hitem
    obtain ⟨hspares', hprobed'⟩ := probe_spares hindex hitem hprobed hstep
    exact ⟨hindex.probe hitem hstep, hgrown.trans (probe_extends hinj hc hstep),
      hspares.trans hspares', hprobed'⟩
  obtain ⟨-, hgrown, hspares, hprobed⟩ := hend
  exact ⟨hgrown.trans (linkProbed_extends hinj hc hlink),
    fun x hx hsource => .inl (hspares.trans (linkProbed_spares hprobed hlink) x hx hsource),
    fun x hx => .inl hx⟩

/-! ## All tools -/

theorem parseNuclei_program [Sanitizer] {items : List Item} {programId : String}
    {rows : List ParsedScanItem} (h : parseNuclei items programId = .ok rows) :
    ∀ r ∈ rows, r.programId = programId := by
  intro r hr
  obtain ⟨item, -, hitem⟩ := exists_of_mapM_eq_ok h hr
  obtain ⟨templateId, -, hitem⟩ := bind_eq_ok hitem
  obtain ⟨title, -, hitem⟩ := bind_eq_ok hitem
  obtain ⟨severity, -, hitem⟩ := bind_eq_ok hitem
  obtain ⟨type, -, hitem⟩ := bind_eq_ok hitem
  obtain ⟨description, -, hitem⟩ := bind_eq_ok hitem
  obtain ⟨cwe, -, hitem⟩ := bind_eq_ok hitem
  cases hitem
  rfl

/-- An import puts what it adds on the nodes of what was observed. -/
theorem importResults_places [Sanitizer] (hinj : Function.Injective newId)
    (hc : Draws newId gone c) {tool : ToolType} {items : List Item} {s : Store}
    {imported : Imported} (h : importResults c tool items s = .ok imported) :
    Places newId gone c.programId s imported.store := by
  cases tool with
  | ffuf =>
    obtain ⟨rows, hrows, h⟩ := bind_eq_ok h
    exact importRecon_places hinj hc (fun r hr => (parseFfuf_source hrows r hr).1) h
  | katana => exact importRecon_places hinj hc (fun r hr => (parseKatana_source r hr).1) h
  | gau => exact importRecon_places hinj hc (fun r hr => (parseGau_source r hr).1) h
  | httpx =>
    obtain ⟨rows, hrows, h⟩ := bind_eq_ok h
    obtain ⟨⟨store, newCount⟩, hupsert, h⟩ := bind_eq_ok h
    obtain rfl := Except.ok.inj h
    exact upsertReconHttpx_places hinj hc (parseHttpx_source hrows) hupsert
  | dalfox =>
    refine importScan_places hinj hc (fun r hr => ?_) h
    rw [dedupScan_eq] at hr
    exact (parseDalfox_source r ((dedupBy_sublist ..).subset hr)).1
  | nuclei =>
    obtain ⟨rows, hrows, h⟩ := bind_eq_ok h
    exact importScan_places hinj hc (parseNuclei_program hrows) h

end

end VardrMap.Surface
