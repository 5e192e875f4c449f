import VardrMap.Imports.Linking
import VardrMap.Lib.Clients

/-!
# Several imports on one asset graph

Imports that link their rows at the same time, statement by statement. A node that is missing is
inserted, and stays with its import until that one commits; another insert of the node waits for
the commit, and then fails. Nothing catches this: the import that comes second is lost.
-/
namespace VardrMap.Imports.Sharing
open Lib Assets Parsers

/-! ## The imports -/

/-- What `uq_asset_canonical` admits once: an engagement and a canonical key. -/
abbrev NodeKey := String × Text

def nodeKey (a : Asset) : NodeKey := (a.programId, a.identity.canonicalKey)

/-- The stored graph, and which import has inserted a node that is not stored yet. -/
structure Graph where
  assets : List Asset
  holder : NodeKey → Option ℕ

/-- An import on its way: the nodes that it has inserted and those that it has found, and what it
was answered. -/
structure Progress where
  context : Context
  tool : ToolType
  read : Store
  own : List Asset
  seen : List String
  links : List (Text × Option String)

/-- How far an import is. -/
inductive Phase where
  | idle
  | linking (p : Progress) (rest : Linking Imported)
  | inserting (p : Progress) (observed : Text) (identity : AssetIdentity)
      (next : Option String → Linking Imported)
  | ended (result : Except Refusal (Progress × Imported))

/-- The statements of an import: what it reads of the stored rows, the lookup of a node and the
insert of a missing one, and the commit. -/
inductive Statement where
  | begin (context : Context) (tool : ToolType) (items : List Item) (read : Store)
  | look
  | insert (newId : String)
  | commit

abbrev Calls := Clients Graph Phase

/-- The key of a node that the import asks for. -/
def Progress.key (p : Progress) (identity : AssetIdentity) : NodeKey :=
  (p.context.programId, identity.canonicalKey)

/-- An answer. -/
def Progress.answered (p : Progress) (observed : Text) (id : Option String) : Progress :=
  { p with links := p.links ++ [(observed, id)] }

/-- The node that `upsert` adds. -/
def Progress.node (p : Progress) (identity : AssetIdentity) (newId : String) : Asset where
  id := newId
  programId := p.context.programId
  identity
  source := p.tool.text
  confidence := "confirmed"
  firstSeenAt := p.context.now
  lastSeenAt := p.context.now

/-- A stored node, seen by an import. -/
def Progress.touch (p : Progress) (a : Asset) : Asset :=
  if p.seen.contains a.id then { a with lastSeenAt := p.context.now } else a

/-- The nodes of an import that ends are no longer its own. -/
def Graph.release (s : Graph) (c : ℕ) : Graph :=
  { s with holder := fun k => if s.holder k = some c then none else s.holder k }

/-- An import ends without having stored anything. -/
def fail (w : Calls) (c : ℕ) (e : Refusal) : Calls :=
  w.commit c (w.shared.release c) (.ended (.error e)) id

/-- The insert and the flush of `upsert`. -/
def insert (w : Calls) (c : ℕ) (p : Progress) (observed : Text) (identity : AssetIdentity)
    (next : Option String → Linking Imported) (newId : String) : Option Calls :=
  let key := p.key identity
  if key ∈ w.shared.assets.map nodeKey then some (fail w c .integrity)
  else if (w.shared.holder key).all (· == c) then
    some (w.commit c
      { w.shared with holder := fun k => if k = key then some c else w.shared.holder k }
      (.linking { p.answered observed (some newId) with own := p.own ++ [p.node identity newId] }
        (next (some newId))) id)
  else none

/-- The commit, with the times of the nodes that were found. -/
def commit (w : Calls) (c : ℕ) (p : Progress) (r : Imported) : Calls :=
  let s := { w.shared with assets := w.shared.assets.map p.touch ++ p.own }
  w.commit c (s.release c) (.ended (.ok (p, r))) id

variable [Unicode]

/-- The lookup of `upsert`, among the stored nodes and the import's own. -/
def look (w : Calls) (c : ℕ) (p : Progress) (observed : Text)
    (next : Option String → Linking Imported) : Calls :=
  match parse observed none with
  | .error e => fail w c (.raised e)
  | .ok none => w.enter c (.linking (p.answered observed none) (next none))
  | .ok (some identity) =>
    let key := p.key identity.hostLevel
    match (w.shared.assets ++ p.own).find? fun a => nodeKey a == key with
    | some a => w.enter c (.linking { p.answered observed (some a.id) with seen := p.seen ++ [a.id] }
        (next (some a.id)))
    | none => w.enter c (.inserting p observed identity.hostLevel next)

variable [Sanitizer]

/-- The import with the rows that it has read. -/
def begin (w : Calls) (c : ℕ) (context : Context) (tool : ToolType) (items : List Item)
    (read : Store) : Calls :=
  match asking context tool items read with
  | .ok rest => w.enter c (.linking ⟨context, tool, read, [], [], []⟩ rest)
  | .error e => fail w c (.raised e)

/-- One statement of one import. -/
def next (w : Calls) : ℕ × Statement → Option Calls
  | (c, s) =>
    match w.phase c, s with
    | .idle, .begin context tool items read => some (begin w c context tool items read)
    | .linking p (.ask observed next), .look => some (look w c p observed next)
    | .inserting p observed identity next, .insert newId =>
      insert w c p observed identity next newId
    | .linking p (.done r), .commit => some (commit w c p r)
    | _, _ => none

/-- The step is not the one that loses an import: what it reads can be read, and what it inserts
is not stored. -/
def Undisturbed (w : Calls) : ℕ × Statement → Prop
  | (c, s) =>
    match w.phase c, s with
    | .idle, .begin context tool items read => (asking context tool items read).isOk = true
    | .linking _ (.ask observed _), .look => (parse observed none).isOk = true
    | .inserting p _ identity _, .insert _ => p.key identity ∉ w.shared.assets.map nodeKey
    | _, _ => True

instance (w : Calls) (a : ℕ × Statement) : Decidable (Undisturbed w a) := by
  obtain ⟨c, s⟩ := a
  unfold Undisturbed
  dsimp only
  split <;> infer_instance

omit [Unicode] [Sanitizer] in
/-- The imports begin on this graph. -/
def start (assets : List Asset) : Calls := .start ⟨assets, fun _ => none⟩ .idle

omit [Sanitizer] in
/-- What was answered is the node of what was asked for. -/
def Linked (assets : List Asset) (p : Progress) : Prop :=
  ∀ observed id, (observed, id) ∈ p.links → ∀ i, parse observed none = .ok (some i) →
    ∃ a ∈ assets, nodeKey a = p.key i.hostLevel ∧ id = some a.id

omit [Sanitizer] in
/-- The imports share their nodes: none is lost, a key has one node, and the rows of every import
that has ended are linked to the nodes of what they were linked by. -/
structure Shares (w : Calls) : Prop where
  completed : ∀ c e, w.phase c ≠ .ended (.error e)
  one : (w.shared.assets.map nodeKey).Nodup
  linked : ∀ c p r, w.phase c = .ended (.ok (p, r)) → Linked w.shared.assets p
  rows : ∀ c p r, w.phase c = .ended (.ok (p, r)) → r.Answered p.tool p.read p.links

/-! ## The invariant -/

omit [Sanitizer] in
/-- The nodes of an import are its own: nobody else stores their keys. -/
structure Progress.Holds (s : Graph) (c : ℕ) (p : Progress) : Prop where
  locked : ∀ a ∈ p.own, s.holder (nodeKey a) = some c
  new : ∀ a ∈ p.own, nodeKey a ∉ s.assets.map nodeKey
  one : (p.own.map nodeKey).Nodup
  linked : Linked (s.assets ++ p.own) p

omit [Sanitizer] in
/-- Where an import is, against what is stored. -/
def Phase.Holds (s : Graph) (c : ℕ) : Phase → Prop
  | idle => True
  | linking p rest => p.Holds s c ∧ rest.Ends (Imported.Answered p.tool p.read) p.links
  | inserting p observed identity next => p.Holds s c ∧
      (∀ i, parse observed none = .ok (some i) → i.hostLevel = identity) ∧
      p.key identity ∉ p.own.map nodeKey ∧
      ∀ id, (next id).Ends (Imported.Answered p.tool p.read) (p.links ++ [(observed, id)])
  | ended (.ok (p, r)) => Linked s.assets p ∧ r.Answered p.tool p.read p.links
  | ended (.error _) => False

omit [Sanitizer] in
structure Guarded (w : Calls) : Prop where
  one : (w.shared.assets.map nodeKey).Nodup
  phase : ∀ c, (w.phase c).Holds w.shared c

omit [Unicode] [Sanitizer] in
/-- What the others do spares an import: nodes stay, and a key that it holds is not stored. -/
structure Graph.Spares (s s' : Graph) (c : ℕ) : Prop where
  kept : ∀ a ∈ s.assets, ∃ a' ∈ s'.assets, nodeKey a' = nodeKey a ∧ a'.id = a.id
  locked : ∀ k, s.holder k = some c → s'.holder k = some c
  new : ∀ k, s.holder k = some c → k ∈ s'.assets.map nodeKey → k ∈ s.assets.map nodeKey

variable {s s' : Graph} {w w' : Calls} {c : ℕ} {p : Progress}

omit [Sanitizer] in
theorem Linked.mono {assets assets' : List Asset} (h : Linked assets p)
    (hkept : ∀ a ∈ assets, ∃ a' ∈ assets', nodeKey a' = nodeKey a ∧ a'.id = a.id) :
    Linked assets' p := by
  intro observed id hlink i hi
  obtain ⟨a, ha, hkey, hid⟩ := h observed id hlink i hi
  obtain ⟨a', ha', hkey', hid'⟩ := hkept a ha
  exact ⟨a', ha', hkey'.trans hkey, by rw [hid, hid']⟩

omit [Sanitizer] in
/-- One more answer. -/
theorem Linked.answered {assets : List Asset} {observed : Text} {id : Option String}
    (h : Linked assets p)
    (hid : ∀ i, parse observed none = .ok (some i) →
      ∃ a ∈ assets, nodeKey a = p.key i.hostLevel ∧ id = some a.id) :
    Linked assets (p.answered observed id) := by
  intro observed' id' hlink i hi
  obtain hlink | hlink := List.mem_append.mp hlink
  · exact h observed' id' hlink i hi
  · obtain ⟨rfl, rfl⟩ := Prod.mk.inj (List.mem_singleton.mp hlink)
    exact hid i hi

omit [Sanitizer] in
theorem Progress.Holds.frame (h : p.Holds s c) (hs : s.Spares s' c) : p.Holds s' c where
  locked a ha := hs.locked _ (h.locked a ha)
  new a ha hmem := h.new a ha (hs.new _ (h.locked a ha) hmem)
  one := h.one
  linked := h.linked.mono fun a ha => by
    obtain ha | ha := List.mem_append.mp ha
    · obtain ⟨a', ha', hkept⟩ := hs.kept a ha
      exact ⟨a', List.mem_append_left _ ha', hkept⟩
    · exact ⟨a, List.mem_append_right _ ha, rfl, rfl⟩

omit [Sanitizer] in
theorem Phase.Holds.frame {x : Phase} (h : x.Holds s c) (hs : s.Spares s' c) :
    x.Holds s' c := by
  cases x with
  | idle => trivial
  | linking p rest => exact ⟨h.1.frame hs, h.2⟩
  | inserting p observed identity next => exact ⟨h.1.frame hs, h.2⟩
  | ended result =>
    rcases result with e | ⟨p, r⟩
    · exact h
    · exact ⟨h.1.mono hs.kept, h.2⟩

omit [Sanitizer] in
theorem Guarded.enter {x : Phase} (h : Guarded w) (hx : x.Holds w.shared c) :
    Guarded (w.enter c x) := ⟨h.one, Clients.forall_enter hx h.phase⟩

omit [Sanitizer] in
theorem Guarded.commit {x : Phase} (h : Guarded w) (hone : (s'.assets.map nodeKey).Nodup)
    (hspares : ∀ d ≠ c, w.shared.Spares s' d) (hx : x.Holds s' c) :
    Guarded (w.commit c s' x id) :=
  ⟨hone, Clients.forall_commit hx fun d hd => (h.phase d).frame (hspares d hd)⟩

/-! ## The statements -/

theorem Guarded.begin {context : Context} {tool : ToolType} {items : List Item} {read : Store}
    (h : Guarded w) (ha : (asking context tool items read).isOk = true) :
    Guarded (begin w c context tool items read) := by
  obtain ⟨rest, hrest⟩ := exists_of_isOk ha
  unfold Sharing.begin
  rw [hrest]
  refine h.enter ⟨⟨nofun, nofun, List.nodup_nil, nofun⟩, ends_asking hrest⟩

omit [Sanitizer] in
theorem Guarded.look {observed : Text} {next : Option String → Linking Imported} (h : Guarded w)
    (hc : w.phase c = .linking p (.ask observed next)) (ha : (parse observed none).isOk = true) :
    Guarded (look w c p observed next) := by
  have hphase : (Phase.linking p (.ask observed next)).Holds w.shared c := hc ▸ h.phase c
  obtain ⟨hp, hends⟩ := hphase
  obtain ⟨found, hfound⟩ := exists_of_isOk ha
  unfold Sharing.look
  rw [hfound]
  cases found with
  | none =>
    refine h.enter ⟨⟨hp.locked, hp.new, hp.one, hp.linked.answered fun i hi => ?_⟩, hends none⟩
    cases hfound.symm.trans hi
  | some identity =>
    dsimp only
    split
    · rename_i a ha
      refine h.enter ⟨⟨hp.locked, hp.new, hp.one, hp.linked.answered fun i hi => ?_⟩, hends _⟩
      obtain rfl : identity = i := Option.some.inj (Except.ok.inj (hfound.symm.trans hi))
      exact ⟨a, List.mem_of_find?_eq_some ha, by simpa using List.find?_some ha, rfl⟩
    · rename_i hmissing
      refine h.enter ⟨hp, fun i hi => ?_, fun hmem => ?_, hends⟩
      · rw [Option.some.inj (Except.ok.inj (hfound.symm.trans hi))]
      · obtain ⟨a, ha, hkey⟩ := List.mem_map.mp hmem
        have hne := List.find?_eq_none.mp hmissing a (List.mem_append_right _ ha)
        exact hne (beq_iff_eq.mpr hkey)

omit [Sanitizer] in
/-- A node that is neither stored nor held by another import becomes the import's own. -/
theorem Guarded.insert {observed : Text} {identity : AssetIdentity}
    {next : Option String → Linking Imported} {newId : String} (h : Guarded w)
    (hc : w.phase c = .inserting p observed identity next)
    (ha : p.key identity ∉ w.shared.assets.map nodeKey)
    (hnext : insert w c p observed identity next newId = some w') : Guarded w' := by
  have hphase : (Phase.inserting p observed identity next).Holds w.shared c := hc ▸ h.phase c
  obtain ⟨hp, hidentity, hown, hends⟩ := hphase
  unfold Sharing.insert at hnext
  dsimp only at hnext
  rw [if_neg ha] at hnext
  split at hnext
  · rename_i hfree
    obtain rfl := Option.some.inj hnext
    have hkey : nodeKey (p.node identity newId) = p.key identity := rfl
    refine h.commit h.one (fun d hd => ?_) ⟨⟨?_, ?_, ?_, ?_⟩, hends _⟩
    · refine ⟨fun a ha => ⟨a, ha, rfl, rfl⟩, fun k hk => ?_, fun k _ => id⟩
      dsimp only
      rw [if_neg]
      · exact hk
      · rintro rfl
        rw [hk] at hfree
        exact hd (by simpa using hfree)
    · intro a ha
      dsimp only
      obtain ha | ha := List.mem_append.mp ha
      · split
        · rfl
        · exact hp.locked a ha
      · rw [List.mem_singleton.mp ha, hkey, if_pos rfl]
    · intro a ha'
      obtain ha' | ha' := List.mem_append.mp ha'
      · exact hp.new a ha'
      · rw [List.mem_singleton.mp ha', hkey]
        exact ha
    · rw [List.map_append, List.map_singleton, hkey]
      exact List.nodup_append.mpr ⟨hp.one, List.nodup_singleton _, fun k hk k' hk' heq =>
        hown (List.mem_singleton.mp hk' ▸ heq ▸ hk)⟩
    · refine Linked.answered (p := { p with own := p.own ++ [p.node identity newId] }) ?_ ?_
      · refine Linked.mono (p := p) hp.linked fun a ha => ⟨a, ?_, rfl, rfl⟩
        obtain ha | ha := List.mem_append.mp ha
        · exact List.mem_append_left _ ha
        · exact List.mem_append_right _ (List.mem_append_left _ ha)
      · intro i hi
        refine ⟨p.node identity newId, ?_, ?_, rfl⟩
        · exact List.mem_append_right _ (List.mem_append_right _ (.head _))
        · rw [hidentity i hi]
          rfl
  · cases hnext

omit [Sanitizer] in
/-- A commit stores the import's own nodes beside the others. -/
theorem Guarded.store {r : Imported} (h : Guarded w) (hc : w.phase c = .linking p (.done r)) :
    Guarded (Sharing.commit w c p r) := by
  have hphase : (Phase.linking p (.done r)).Holds w.shared c := hc ▸ h.phase c
  obtain ⟨hp, hends⟩ := hphase
  have htouch (a : Asset) : nodeKey (p.touch a) = nodeKey a ∧ (p.touch a).id = a.id := by
    unfold Progress.touch
    split <;> exact ⟨rfl, rfl⟩
  have hkeys : (w.shared.assets.map p.touch ++ p.own).map nodeKey =
      w.shared.assets.map nodeKey ++ p.own.map nodeKey := by
    rw [List.map_append, List.map_map]
    exact congrArg (· ++ _) (List.map_congr_left fun a _ => (htouch a).1)
  have hkept : ∀ a ∈ w.shared.assets, ∃ a' ∈ w.shared.assets.map p.touch ++ p.own,
      nodeKey a' = nodeKey a ∧ a'.id = a.id := fun a ha =>
    ⟨p.touch a, List.mem_append_left _ (List.mem_map_of_mem ha), htouch a⟩
  refine h.commit ?_ (fun d hd => ⟨hkept, fun k hk => ?_, fun k hk hmem => ?_⟩) ⟨?_, hends⟩
  · change ((w.shared.assets.map p.touch ++ p.own).map nodeKey).Nodup
    rw [hkeys]
    refine List.nodup_append.mpr ⟨h.one, hp.one, fun k hk k' hk' heq => ?_⟩
    obtain ⟨a, ha, rfl⟩ := List.mem_map.mp hk'
    exact hp.new a ha (heq ▸ hk)
  · simp only [Graph.release, hk, Option.some.injEq]
    rw [if_neg hd]
  · change k ∈ (w.shared.assets.map p.touch ++ p.own).map nodeKey at hmem
    rw [hkeys] at hmem
    obtain hmem | hmem := List.mem_append.mp hmem
    · exact hmem
    · obtain ⟨a, ha, rfl⟩ := List.mem_map.mp hmem
      exact absurd (Option.some.inj (hk.symm.trans (hp.locked a ha))) hd
  · refine hp.linked.mono fun a ha => ?_
    obtain ha | ha := List.mem_append.mp ha
    · exact hkept a ha
    · exact ⟨a, List.mem_append_right _ ha, rfl, rfl⟩

theorem Guarded.step {a : ℕ × Statement} (h : Guarded w) (hnext : next w a = some w')
    (ha : Undisturbed w a) : Guarded w' := by
  obtain ⟨c, s⟩ := a
  unfold Undisturbed at ha
  unfold next at hnext
  dsimp only at hnext ha
  split at hnext <;> rename_i hc
  · simp only [hc] at ha
    exact Option.some.inj hnext ▸ h.begin ha
  · simp only [hc] at ha
    exact Option.some.inj hnext ▸ h.look hc ha
  · simp only [hc] at ha
    exact h.insert hc ha hnext
  · exact Option.some.inj hnext ▸ h.store hc
  · cases hnext

/-- An interleaving of imports, every step under a condition. -/
abbrev Interleaving (meets : Calls → ℕ × Statement → Prop) := Lib.Run (Taken next meets)

omit [Sanitizer] in
theorem start_guarded {assets : List Asset} (h : (assets.map nodeKey).Nodup) :
    Guarded (start assets) := ⟨h, fun _ => trivial⟩

theorem Interleaving.guarded {assets : List Asset} {actions : List (ℕ × Statement)}
    (hone : (assets.map nodeKey).Nodup) (h : Interleaving Undisturbed (start assets) actions w) :
    Guarded w :=
  h.invariant Guarded
    (fun hw hs => by cases hs with | step hnext ha => exact hw.step hnext ha) (start_guarded hone)

/-! ## Shared nodes -/

omit [Sanitizer] in
theorem Guarded.shares (h : Guarded w) : Shares w where
  completed c e hc := by
    have hended : (Phase.ended (.error e)).Holds w.shared c := hc ▸ h.phase c
    exact hended
  one := h.one
  linked c p r hc := by
    have hended : (Phase.ended (.ok (p, r))).Holds w.shared c := hc ▸ h.phase c
    exact hended.1
  rows c p r hc := by
    have hended : (Phase.ended (.ok (p, r))).Holds w.shared c := hc ▸ h.phase c
    exact hended.2

/-- A step that is disturbed loses its import. -/
theorem undisturbed_of_shares {a : ℕ × Statement} (hnext : next w a = some w')
    (h : Shares w') : Undisturbed w a := by
  obtain ⟨c, s⟩ := a
  have hlost (e : Refusal) : w' ≠ fail w c e := by
    rintro rfl
    exact h.completed c e (if_pos rfl)
  unfold next at hnext
  unfold Undisturbed
  dsimp only at hnext ⊢
  split at hnext <;> rename_i hc
  · rename_i context tool items read
    simp only [hc]
    obtain rfl := Option.some.inj hnext
    cases hasking : asking context tool items read with
    | ok rest => rfl
    | error e => exact absurd (by simp only [Sharing.begin, hasking]) (hlost (.raised e))
  · rename_i p observed next
    simp only [hc]
    obtain rfl := Option.some.inj hnext
    cases hparse : parse observed none with
    | ok found => rfl
    | error e => exact absurd (by simp only [Sharing.look, hparse]) (hlost (.raised e))
  · rename_i p observed identity next newId
    simp only [hc]
    intro hstored
    unfold Sharing.insert at hnext
    dsimp only at hnext
    rw [if_pos hstored] at hnext
    exact hlost .integrity (Option.some.inj hnext).symm
  · simp only [hc]
  · split <;> simp_all

omit [Unicode] [Sanitizer] in
def exampleContext : Context := ⟨"e1", none, 0, fun _ => ""⟩

omit [Unicode] [Sanitizer] in
/-- The import of one address. -/
def exampleBegin (url : String) : Statement :=
  .begin exampleContext .gau [[("url", .str url)]] ⟨[], [], []⟩

omit [Unicode] [Sanitizer] in
/-- Two imports of addresses of one host, of which the second looks it up after the commit. -/
def exampleShared : List (ℕ × Statement) :=
  [(1, exampleBegin "https://api.example.com/a"), (2, exampleBegin "https://api.example.com/b"),
    (1, .look), (1, .insert "a1"), (1, .commit), (2, .look), (2, .commit)]

omit [Unicode] [Sanitizer] in
/-- The identifiers of the nodes that the rows of an import are linked to. -/
def Phase.rowLinks : Phase → Option (List (Option String))
  | ended (.ok (_, r)) => some (r.store.recon.map Stored.assetId)
  | _ => none

omit [Unicode] [Sanitizer] in
/-- Two imports that both miss the node of their host. -/
def exampleLost : List (ℕ × Statement) :=
  [(1, exampleBegin "https://api.example.com/a"), (2, exampleBegin "https://api.example.com/b"),
    (1, .look), (2, .look), (1, .insert "a1"), (1, .commit), (2, .insert "a2")]

end VardrMap.Imports.Sharing
