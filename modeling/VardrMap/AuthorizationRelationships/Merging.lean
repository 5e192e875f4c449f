import VardrMap.AuthorizationRelationships
import VardrMap.Lib.Coupled

/-!
# Merging the declarations of an engagement

The merged identities are a function of the sets of declarations, so the order of the cases is
lost. An attribute is established when all declarations of it agree; an identity about which the
cases disagree is in none of the lists that questions and drafts are made of.
-/
namespace VardrMap.Relationships
open Lib

/-! ## Credentials of texts -/

/-- Every part of a credential that is declared is a text. -/
def Reference.Plain (r : Reference) : Prop := ∀ p ∈ r.parts, p = .null ∨ ∃ s, p = .str s

theorem pyEq_iff_of_plain {a b : Json} (ha : a = .null ∨ ∃ s, a = .str s)
    (hb : b = .null ∨ ∃ s, b = .str s) : a.pyEq b = true ↔ a = b := by
  rcases ha with rfl | ⟨s, rfl⟩
  · rcases hb with rfl | ⟨t, rfl⟩
    · simp [Json.pyEq]
    · simp [Json.pyEq, Json.number?]
  · rcases hb with rfl | ⟨t, rfl⟩
    · simp [Json.pyEq, Json.number?]
    · simp [Json.pyEq]

/-- References of texts are equal as tuples when they are equal. -/
theorem Reference.same_iff {r s : Reference} (hr : r.Plain) (hs : s.Plain) :
    r.same s = true ↔ r = s := by
  have hpart : ∀ {p q}, p ∈ r.parts → q ∈ s.parts → (p.pyEq q = true ↔ p = q) :=
    fun hp hq => pyEq_iff_of_plain (hr _ hp) (hs _ hq)
  obtain ⟨t, h, e, k⟩ := r
  obtain ⟨t', h', e', k'⟩ := s
  simp only [Reference.parts, List.mem_cons, List.not_mem_nil, or_false] at hpart
  simp only [Reference.same, Reference.parts, Json.pyEqList, Bool.and_eq_true, Bool.and_true,
    Reference.mk.injEq]
  rw [hpart (.inl rfl) (.inl rfl), hpart (.inr (.inl rfl)) (.inr (.inl rfl)),
    hpart (.inr (.inr (.inl rfl))) (.inr (.inr (.inl rfl))),
    hpart (.inr (.inr (.inr rfl))) (.inr (.inr (.inr rfl)))]

/-- Rows whose credentials are texts. -/
def PlainRows (rows : List LocalIdentity) : Prop := ∀ row ∈ rows, row.reference.Plain

theorem PlainRows.decides {rows : List LocalIdentity} (h : PlainRows rows) :
    Decides Reference.same (rows.map LocalIdentity.reference) := by
  intro a ha b hb
  obtain ⟨row, hrow, rfl⟩ := List.mem_map.mp ha
  obtain ⟨row', hrow', rfl⟩ := List.mem_map.mp hb
  exact Reference.same_iff (h row hrow) (h row' hrow')

theorem PlainRows.own {rows : List LocalIdentity} (h : PlainRows rows) (identityId : String) :
    PlainRows (rows.filter fun r => r.identityId == identityId) :=
  fun row hrow => h row (List.mem_of_mem_filter hrow)

/-! ## The order of the rows -/

variable {rows rows' : List LocalIdentity}

/-- The sets of one identity, in any order. -/
structure Seen.SameSets (s s' : Seen) : Prop where
  role : s.role.Perm s'.role
  tenantId : s.tenantId.Perm s'.tenantId
  kind : s.kind.Perm s'.kind
  reference : s.reference.Perm s'.reference

theorem seenOf_perm (h : rows.Perm rows') (hplain : PlainRows rows) (identityId : String) :
    (seenOf rows identityId).SameSets (seenOf rows' identityId) where
  role := distinct_perm (decides_beq _) ((h.filter _).filterMap _)
  tenantId := distinct_perm (decides_beq _) ((h.filter _).filterMap _)
  kind := distinct_perm (decides_beq _) ((h.filter _).map _)
  reference := distinct_perm (hplain.own identityId).decides ((h.filter _).map _)

theorem sort_perm {l l' : List String} (h : l.Perm l') : sortBy id l = sortBy id l' :=
  sortBy_eq_of_perm h fun _ _ _ _ hab => hab

theorem disputed_perm (name : String) {l l' : List String} (h : l.Perm l') :
    disputed name l = disputed name l' := by
  rw [disputed, disputed, h.length_eq, sort_perm h]

variable [Unicode]

theorem Seen.SameSets.disputes {s s' : Seen} (h : s.SameSets s') : s.disputes = s'.disputes := by
  have hcredential : s.credentialDispute = s'.credentialDispute := by
    unfold Seen.credentialDispute
    rw [h.kind.length_eq, h.reference.length_eq, sort_perm h.kind,
      sort_perm (h.reference.map Reference.text)]
  rw [Seen.disputes, Seen.disputes, disputed_perm "role" h.role,
    disputed_perm "tenant_id" h.tenantId, hcredential]

theorem Seen.SameSets.merged {s s' : Seen} (h : s.SameSets s') (identityId : String) :
    s.merged identityId = s'.merged identityId := by
  have hkind : (s.kind == ["anonymous"]) = (s'.kind == ["anonymous"]) := by
    rw [Bool.eq_iff_iff, beq_iff_eq, beq_iff_eq, ← sole_eq_some, ← sole_eq_some, sole_perm h.kind]
  rw [Seen.merged, Seen.merged, sole_perm h.role, sole_perm h.tenantId, sole_perm h.reference,
    hkind, h.disputes]

/-- The order of the declarations is lost. -/
theorem mergeRows_perm (h : rows.Perm rows') (hplain : PlainRows rows) :
    mergeRows rows = mergeRows rows' := by
  have hids : sortedSet (rows.map LocalIdentity.identityId) =
      sortedSet (rows'.map LocalIdentity.identityId) :=
    sortedSet_congr fun i => (h.map LocalIdentity.identityId).mem_iff
  have hseen := seenOf_perm h hplain
  simp only [mergeRows, hids, (hseen _).disputes, (hseen _).merged]

/-! ## The rows of the cases -/

/-- Every part of a credential that the case declares is a text. -/
def TextCredentials (spec : Json) : Prop := ∀ table, localTable spec = .ok table → PlainRows table

/-- The case declares the row. -/
def DeclaresRow (spec : Json) (row : LocalIdentity) : Prop :=
  ∃ table, localTable spec = .ok table ∧ row ∈ table

theorem readTable_eq_ok {spec : Json} {table : List LocalIdentity}
    (h : readTable spec = .ok table) : localTable spec = .ok table := by
  unfold readTable at h
  obtain ⟨table', htable, h⟩ := bind_eq_ok h
  obtain ⟨_, -, h⟩ := bind_eq_ok h
  obtain rfl := Except.ok.inj h
  exact htable

theorem mem_flatten_iff {specs : List Json} {tables : List (List LocalIdentity)}
    (h : specs.mapM readTable = .ok tables) (row : LocalIdentity) :
    row ∈ tables.flatten ↔ ∃ spec ∈ specs, DeclaresRow spec row := by
  have hmatched := Matched.of_forall₂ (mapM_eq_ok h)
  rw [List.mem_flatten]
  constructor
  · rintro ⟨table, htable, hrow⟩
    obtain ⟨spec, hspec, hread⟩ := hmatched.2 table htable
    exact ⟨spec, hspec, table, readTable_eq_ok hread, hrow⟩
  · rintro ⟨spec, hspec, table, hlocal, hrow⟩
    obtain ⟨table', htable', hread⟩ := hmatched.1 spec hspec
    obtain rfl := Except.ok.inj (hlocal.symm.trans (readTable_eq_ok hread))
    exact ⟨table, htable', hrow⟩

theorem plainRows_flatten {specs : List Json} {tables : List (List LocalIdentity)}
    (h : specs.mapM readTable = .ok tables) (htext : ∀ spec ∈ specs, TextCredentials spec) :
    PlainRows tables.flatten := by
  intro row hrow
  obtain ⟨spec, hspec, table, hlocal, hmem⟩ := (mem_flatten_iff h row).mp hrow
  exact htext spec hspec table hlocal row hmem

theorem mergeIdentities_eq_ok {specs : List Json} {m : Merged}
    (h : mergeIdentities specs = .ok m) :
    ∃ tables, specs.mapM readTable = .ok tables ∧ m = mergeRows tables.flatten := by
  obtain ⟨tables, htables, h⟩ := bind_eq_ok h
  exact ⟨tables, htables, (Except.ok.inj h).symm⟩

/-- The order of the cases is lost. -/
theorem mergeIdentities_perm {specs specs' : List Json} (h : specs.Perm specs')
    (htext : ∀ spec ∈ specs, TextCredentials spec) (m : Merged) :
    mergeIdentities specs = .ok m ↔ mergeIdentities specs' = .ok m := by
  have key : ∀ {l l' : List Json}, l.Perm l' → (∀ spec ∈ l, TextCredentials spec) →
      mergeIdentities l = .ok m → mergeIdentities l' = .ok m := by
    intro l l' hp htext hm
    obtain ⟨tables, htables, rfl⟩ := mergeIdentities_eq_ok hm
    obtain ⟨tables', htables', hperm⟩ := (Coupled.mapM_perm hp).exists_ok htables
    rw [mergeIdentities, htables', mergeRows_perm hperm.flatten (plainRows_flatten htables htext)]
    rfl
  exact ⟨key h htext, key h.symm fun spec hspec => htext spec (h.mem_iff.mpr hspec)⟩

/-! ## Established attributes -/

/-- The attributes that are declared as texts. -/
inductive Trait where
  | role
  | tenantId

def Trait.name : Trait → String
  | role => "role"
  | tenantId => "tenant_id"

def Trait.declared : Trait → LocalIdentity → Option String
  | role => LocalIdentity.role
  | tenantId => LocalIdentity.tenantId

def Trait.established : Trait → MergedIdentity → Option String
  | role => MergedIdentity.role
  | tenantId => MergedIdentity.tenantId

def Trait.seen : Trait → Seen → List String
  | role => Seen.role
  | tenantId => Seen.tenantId

/-- The case declares this value for the identity. -/
def Declares (a : Trait) (spec : Json) (identityId value : String) : Prop :=
  ∃ row, DeclaresRow spec row ∧ row.identityId = identityId ∧ a.declared row = some value

/-- Some case declares the value, and none another one. -/
def Agreed (a : Trait) (specs : List Json) (identityId value : String) : Prop :=
  (∃ spec ∈ specs, Declares a spec identityId value) ∧
    ∀ spec ∈ specs, ∀ other, Declares a spec identityId other → other = value

/-- The cases declare two values. -/
def Disputed (a : Trait) (specs : List Json) (identityId : String) : Prop :=
  ∃ v w, v ≠ w ∧ (∃ spec ∈ specs, Declares a spec identityId v) ∧
    ∃ spec ∈ specs, Declares a spec identityId w

theorem mem_own (a : Trait) {specs : List Json} {tables : List (List LocalIdentity)}
    (h : specs.mapM readTable = .ok tables) (identityId value : String) :
    value ∈ (tables.flatten.filter fun r => r.identityId == identityId).filterMap a.declared ↔
      ∃ spec ∈ specs, Declares a spec identityId value := by
  simp only [List.mem_filterMap, List.mem_filter, beq_iff_eq, mem_flatten_iff h]
  constructor
  · rintro ⟨row, ⟨⟨spec, hspec, hrow⟩, hid⟩, hvalue⟩
    exact ⟨spec, hspec, row, hrow, hid, hvalue⟩
  · rintro ⟨spec, hspec, row, hrow, hid, hvalue⟩
    exact ⟨row, ⟨⟨spec, hspec, hrow⟩, hid⟩, hvalue⟩

omit [Unicode] in
theorem seen_eq (a : Trait) (rows : List LocalIdentity) (identityId : String) :
    a.seen (seenOf rows identityId) = distinct (· == ·)
      ((rows.filter fun r => r.identityId == identityId).filterMap a.declared) := by
  cases a <;> rfl

theorem established_merged (a : Trait) (s : Seen) (identityId : String) :
    a.established (s.merged identityId) = sole (a.seen s) := by
  cases a <;> rfl

/-- The name of a dispute is among the conflicts of the merged identity. -/
theorem name_mem_conflicts (a : Trait) (s : Seen) (identityId : String) :
    a.name ∈ (s.merged identityId).conflicts ↔ 1 < (a.seen s).length := by
  have hdisputed : ∀ (name other : String) (l : List String),
      name ∈ (disputed other l).map Prod.fst ↔ name = other ∧ 1 < l.length := by
    intro name other l
    unfold disputed
    split
    · rename_i hl
      simp [hl]
    · rename_i hl
      simp [hl]
  have hcredential : ∀ name : String, name ≠ "credential" →
      name ∉ s.credentialDispute.map Prod.fst := by
    intro name hname
    unfold Seen.credentialDispute
    split
    · simpa using hname
    split
    · simpa using hname
    · simp
  simp only [Seen.merged, Seen.disputes, List.map_append, List.mem_append, hdisputed]
  cases a with
  | role =>
    have hno := hcredential "role" (by decide)
    simp [Trait.name, Trait.seen, hno]
  | tenantId =>
    have hno := hcredential "tenant_id" (by decide)
    simp [Trait.name, Trait.seen, hno]

theorem mem_mergeRows_table {entry : MergedIdentity} : entry ∈ (mergeRows rows).table ↔
    (∃ row ∈ rows, row.identityId = entry.identityId) ∧
      entry = (seenOf rows entry.identityId).merged entry.identityId := by
  simp only [mergeRows, List.mem_map, mem_sortedSet]
  constructor
  · rintro ⟨i, ⟨row, hrow, rfl⟩, rfl⟩
    exact ⟨⟨row, hrow, rfl⟩, rfl⟩
  · rintro ⟨⟨row, hrow, hid⟩, heq⟩
    exact ⟨entry.identityId, ⟨row, hrow, hid⟩, heq.symm⟩

/-- An attribute is established when the declarations of it agree. -/
theorem established_eq_some (a : Trait) {specs : List Json} {m : Merged}
    (h : mergeIdentities specs = .ok m) {entry : MergedIdentity} (he : entry ∈ m.table)
    (value : String) :
    a.established entry = some value ↔ Agreed a specs entry.identityId value := by
  obtain ⟨tables, htables, rfl⟩ := mergeIdentities_eq_ok h
  obtain ⟨-, heq⟩ := mem_mergeRows_table.mp he
  have hown := mem_own a htables entry.identityId
  rw [show a.established entry = _ from (congrArg a.established heq).trans
    (established_merged a _ _), seen_eq, sole_distinct (decides_beq _), hown]
  refine and_congr_right fun _ => ⟨fun hall spec hspec other ho => ?_, fun hall other ho => ?_⟩
  · exact hall other ((hown other).mpr ⟨spec, hspec, ho⟩)
  · obtain ⟨spec, hspec, hdeclares⟩ := (hown other).mp ho
    exact hall spec hspec other hdeclares

/-- It is disputed when two of them differ. -/
theorem name_mem_conflicts_iff (a : Trait) {specs : List Json} {m : Merged}
    (h : mergeIdentities specs = .ok m) {entry : MergedIdentity} (he : entry ∈ m.table) :
    a.name ∈ entry.conflicts ↔ Disputed a specs entry.identityId := by
  obtain ⟨tables, htables, rfl⟩ := mergeIdentities_eq_ok h
  obtain ⟨-, heq⟩ := mem_mergeRows_table.mp he
  have hown := mem_own a htables entry.identityId
  have hle := length_distinct_le_one (decides_beq
    ((tables.flatten.filter fun r => r.identityId == entry.identityId).filterMap a.declared))
  rw [← seen_eq] at hle
  rw [show entry.conflicts = _ from congrArg MergedIdentity.conflicts heq, name_mem_conflicts,
    ← not_le, hle]
  simp only [hown]
  constructor
  · intro hnot
    push Not at hnot
    obtain ⟨v, hv, w, hw, hne⟩ := hnot
    exact ⟨v, w, hne, hv, hw⟩
  · rintro ⟨v, w, hne, hv, hw⟩ hall
    exact hne (hall v hv w hw)

/-- A case that omits an attribute changes nothing about it. -/
theorem omission (a : Trait) {specs : List Json} {spec : Json} {m m' : Merged}
    (h : mergeIdentities specs = .ok m) (h' : mergeIdentities (spec :: specs) = .ok m')
    {entry entry' : MergedIdentity} (he : entry ∈ m.table) (he' : entry' ∈ m'.table)
    (hid : entry'.identityId = entry.identityId)
    (homits : ∀ v, ¬ Declares a spec entry.identityId v) :
    a.established entry' = a.established entry ∧
      (a.name ∈ entry'.conflicts ↔ a.name ∈ entry.conflicts) := by
  have hdeclares : ∀ v, (∃ s ∈ spec :: specs, Declares a s entry.identityId v) ↔
      ∃ s ∈ specs, Declares a s entry.identityId v := by
    intro v
    constructor
    · rintro ⟨s, hs, hv⟩
      rcases List.mem_cons.mp hs with rfl | hs
      · exact absurd hv (homits v)
      · exact ⟨s, hs, hv⟩
    · rintro ⟨s, hs, hv⟩
      exact ⟨s, List.mem_cons_of_mem spec hs, hv⟩
  constructor
  · ext v
    rw [established_eq_some a h' he', established_eq_some a h he, hid]
    refine and_congr (hdeclares v) ⟨fun hall s hs other ho => ?_, fun hall s hs other ho => ?_⟩
    · exact hall s (List.mem_cons_of_mem spec hs) other ho
    · rcases List.mem_cons.mp hs with rfl | hs
      · exact absurd ho (homits other)
      · exact hall s hs other ho
  · rw [name_mem_conflicts_iff a h' he', name_mem_conflicts_iff a h he, hid]
    simp only [Disputed, hdeclares]

/-- The identities of an engagement are those that some case declares. -/
theorem exists_entry_iff {specs : List Json} {m : Merged} (h : mergeIdentities specs = .ok m)
    (identityId : String) : (∃ entry ∈ m.table, entry.identityId = identityId) ↔
      ∃ spec ∈ specs, ∃ row, DeclaresRow spec row ∧ row.identityId = identityId := by
  obtain ⟨tables, htables, rfl⟩ := mergeIdentities_eq_ok h
  constructor
  · rintro ⟨entry, he, rfl⟩
    obtain ⟨⟨row, hrow, hid⟩, -⟩ := mem_mergeRows_table.mp he
    obtain ⟨spec, hspec, hdeclares⟩ := (mem_flatten_iff htables row).mp hrow
    exact ⟨spec, hspec, row, hdeclares, hid⟩
  · rintro ⟨spec, hspec, row, hdeclares, hid⟩
    have hrow := (mem_flatten_iff htables row).mpr ⟨spec, hspec, hdeclares⟩
    exact ⟨(seenOf tables.flatten identityId).merged identityId,
      mem_mergeRows_table.mpr ⟨⟨row, hrow, hid⟩, rfl⟩, rfl⟩

/-! ## Contradictions -/

/-- Two rows about one identity that say different things. -/
def Contradicts (row row' : LocalIdentity) : Prop :=
  (∃ a : Trait, ∃ v w, a.declared row = some v ∧ a.declared row' = some w ∧ v ≠ w) ∨
    row.anonymous ≠ row'.anonymous ∨ row.reference ≠ row'.reference

/-- The cases disagree about the identity. -/
def Contradicted (specs : List Json) (identityId : String) : Prop :=
  ∃ row row', (∃ spec ∈ specs, DeclaresRow spec row) ∧ (∃ spec ∈ specs, DeclaresRow spec row') ∧
    row.identityId = identityId ∧ row'.identityId = identityId ∧ Contradicts row row'

omit [Unicode] in
theorem disputed_eq_nil {name : String} {l : List String} :
    disputed name l = [] ↔ l.length ≤ 1 := by
  unfold disputed
  split
  · rename_i hl
    simpa using hl
  · rename_i hl
    simpa using hl

theorem credentialDispute_eq_nil {s : Seen} :
    s.credentialDispute = [] ↔ s.kind.length ≤ 1 ∧ s.reference.length ≤ 1 := by
  unfold Seen.credentialDispute
  split
  · rename_i hk
    simp only [List.cons_ne_nil, false_iff]
    omega
  split
  · rename_i hr
    simp only [List.cons_ne_nil, false_iff]
    omega
  · rename_i hk hr
    simp only [true_iff]
    omega

omit [Unicode] in
theorem kind_inj {row row' : LocalIdentity} (h : row.kind = row'.kind) :
    row.anonymous = row'.anonymous := by
  unfold LocalIdentity.kind at h
  cases ha : row.anonymous
  · cases hb : row'.anonymous
    · rfl
    · simp [ha, hb] at h
  · cases hb : row'.anonymous
    · simp [ha, hb] at h
    · rfl

/-- Rows without a contradiction leave no conflict. -/
theorem agree_of_conflicts_eq_nil (hplain : PlainRows rows) {identityId : String}
    (h : ((seenOf rows identityId).merged identityId).conflicts = [])
    {row row' : LocalIdentity} (hrow : row ∈ rows) (hrow' : row' ∈ rows)
    (hid : row.identityId = identityId) (hid' : row'.identityId = identityId) :
    ¬ Contradicts row row' := by
  have hown : ∀ r ∈ rows, r.identityId = identityId →
      r ∈ rows.filter fun r => r.identityId == identityId := by
    intro r hr hi
    exact List.mem_filter.mpr ⟨hr, beq_iff_eq.mpr hi⟩
  have hmem := hown row hrow hid
  have hmem' := hown row' hrow' hid'
  have hnil : (seenOf rows identityId).disputes = [] := List.map_eq_nil_iff.mp h
  simp only [Seen.disputes, List.append_eq_nil_iff, disputed_eq_nil, credentialDispute_eq_nil]
    at hnil
  obtain ⟨⟨hrole, htenant⟩, hkind, href⟩ := hnil
  have htrait : ∀ a : Trait, (a.seen (seenOf rows identityId)).length ≤ 1 := by
    intro a
    cases a
    · exact hrole
    · exact htenant
  rintro (⟨a, v, w, hv, hw, hne⟩ | hne | hne)
  · have hle := htrait a
    rw [seen_eq] at hle
    exact hne ((length_distinct_le_one (decides_beq _)).mp hle v
      (List.mem_filterMap.mpr ⟨row, hmem, hv⟩) w (List.mem_filterMap.mpr ⟨row', hmem', hw⟩))
  · exact hne (kind_inj ((length_distinct_le_one (decides_beq _)).mp hkind _
      (List.mem_map_of_mem hmem) _ (List.mem_map_of_mem hmem')))
  · exact hne ((length_distinct_le_one (hplain.own identityId).decides).mp href _
      (List.mem_map_of_mem hmem) _ (List.mem_map_of_mem hmem'))

/-- An identity that the cases disagree about is not among the established ones. -/
theorem ne_of_established {specs : List Json} {m : Merged}
    (htext : ∀ spec ∈ specs, TextCredentials spec) (h : mergeIdentities specs = .ok m)
    {identityId : String} (hc : Contradicted specs identityId) {entry : MergedIdentity}
    (he : entry ∈ established m.table) : entry.identityId ≠ identityId := by
  rintro rfl
  obtain ⟨tables, htables, rfl⟩ := mergeIdentities_eq_ok h
  obtain ⟨hmem, hempty⟩ := List.mem_filter.mp he
  obtain ⟨-, heq⟩ := mem_mergeRows_table.mp hmem
  obtain ⟨row, row', hrow, hrow', hid, hid', hne⟩ := hc
  have hconflicts := List.isEmpty_iff.mp hempty
  rw [heq] at hconflicts
  exact agree_of_conflicts_eq_nil (plainRows_flatten htables htext) hconflicts
    ((mem_flatten_iff htables row).mpr hrow) ((mem_flatten_iff htables row').mpr hrow') hid hid' hne

/-! ## Questions and drafts -/

omit [Unicode] in
/-- Questions are asked about established identities only. -/
theorem askable_without {table : List MergedIdentity} {identityId : String}
    (h : ∀ entry ∈ established table, entry.identityId ≠ identityId)
    (hierarchies : List (List String)) :
    askable (table.filter fun i => i.identityId != identityId) hierarchies =
      askable table hierarchies := by
  have hsame : established (table.filter fun i => i.identityId != identityId) =
      established table := by
    unfold established
    rw [List.filter_filter]
    refine List.filter_congr fun entry he => ?_
    by_cases hempty : entry.conflicts.isEmpty = true
    · have hne := h entry (List.mem_filter.mpr ⟨he, hempty⟩)
      simp [hempty, hne]
    · simp [hempty]
  unfold askable
  rw [hsame]

omit [Unicode] in
/-- The callers of a draft are established identities. -/
theorem callersFor_subset {boundary : Boundary} {hierarchies : List (List String)}
    {usable : List MergedIdentity} {anchor : Anchor} {v : MergedIdentity}
    (h : v ∈ (callersFor boundary hierarchies usable anchor).1) : v ∈ usable := by
  have htenant : ∀ wanted, v ∈ tenantCallers wanted
      (usable.filter fun v => !v.anonymous && some v.identityId != anchor.ownerId) anchor →
        v ∈ usable := by
    intro wanted hv
    unfold tenantCallers at hv
    split at hv
    · exact List.mem_of_mem_filter (List.mem_of_mem_filter hv)
    · split at hv
      · cases hv
      · exact List.mem_of_mem_filter (List.mem_of_mem_filter hv)
  cases boundary with
  | anonymous => exact List.mem_of_mem_filter h
  | crossTenant => exact htenant _ h
  | sameTenantPeer => exact htenant _ h
  | higherPrivilege =>
    unfold callersFor privilegeCallers at h
    dsimp only at h
    split at h
    · cases h
    · split at h
      · exact List.mem_of_mem_filter (List.mem_of_mem_filter h)
      · dsimp only at h
        split at h
        · exact List.mem_of_mem_filter (List.mem_of_mem_filter (List.mem_of_mem_filter h))
        · exact List.mem_of_mem_filter (List.mem_of_mem_filter h)
    · cases h

omit [Unicode] in
/-- So is the owner. -/
theorem anchorOf_owner {owners : List (String × Option String)} {usable : List MergedIdentity}
    {owner : MergedIdentity} (h : (anchorOf owners usable).owner = some owner) :
    owner ∈ usable := by
  unfold anchorOf at h
  split at h
  · cases h
  · split at h
    · cases h
    · rename_i o ho
      have hmem := List.mem_of_find?_eq_some ho
      split at h
      · rwa [← Option.some.inj h]
      · rwa [← Option.some.inj h]
      · rwa [← Option.some.inj h]
  · cases h

omit [Unicode] in
theorem draftIdentity_id {item : MergedIdentity} {d : DraftIdentity}
    (h : draftIdentity item = .ok d) : d.id = item.identityId := by
  unfold draftIdentity at h
  split at h
  · obtain rfl := Except.ok.inj h
    rfl
  · cases h

/-- A draft is made of established identities. -/
theorem draftOf_eq_ok {cases : List (String × Json)} {caseIds : List String} {boundary : Boundary}
    {d : Draft} (h : draftOf cases caseIds boundary = .ok d) :
    ∃ m, mergeIdentities (cases.map Prod.snd) = .ok m ∧
      (∀ x ∈ d.identities, ∃ entry ∈ established m.table, x.id = entry.identityId) ∧
        ∀ r, d.resource = some r →
          ∃ entry ∈ established m.table, r.ownerIdentity = entry.identityId := by
  unfold draftOf at h
  obtain ⟨m, hm, h⟩ := bind_eq_ok h
  dsimp only at h
  obtain ⟨hierarchies, -, h⟩ := bind_eq_ok h
  obtain ⟨identities, hidentities, h⟩ := bind_eq_ok h
  obtain rfl := Except.ok.inj h
  refine ⟨m, hm, fun x hx => ?_, fun r hr => ?_⟩
  · obtain ⟨item, hitem, hx⟩ := exists_of_mapM_eq_ok hidentities hx
    refine ⟨item, ?_, draftIdentity_id hx⟩
    rcases List.mem_append.mp hitem with hitem | hitem
    · exact anchorOf_owner (Option.mem_toList.mp hitem)
    · exact callersFor_subset (List.mem_of_mem_take hitem)
  · dsimp only at hr
    obtain ⟨i, hi, rfl⟩ := Option.map_eq_some_iff.mp hr
    obtain ⟨owner, howner, rfl⟩ := Option.map_eq_some_iff.mp hi
    exact ⟨owner, anchorOf_owner howner, rfl⟩

/-- The specifications of the stored cases of an engagement. -/
def storedSpecs (db : Db) (programId : String) : List Json :=
  (db.testCases.rows.filter fun c => c.programId == programId).map fun c => objOrEmpty c.spec

theorem draftForBoundary_eq_ok {db : Db} {inventory : Inventory} {programId endpointId : String}
    {boundary : Boundary} {d : Draft}
    (h : draftForBoundary db inventory programId endpointId boundary = .ok d) :
    ∃ cases caseIds, cases.map Prod.snd = storedSpecs db programId ∧
      draftOf cases caseIds boundary = .ok d := by
  unfold draftForBoundary at h
  obtain ⟨coverage, -, h⟩ := bind_eq_ok h
  exact ⟨_, _, List.map_map, h⟩

/-- What merging may be relied on for. -/
structure Conservative (specs : List Json) (m : Merged) : Prop where
  identities (i : String) : (∃ entry ∈ m.table, entry.identityId = i) ↔
    ∃ spec ∈ specs, ∃ row, DeclaresRow spec row ∧ row.identityId = i
  established (a : Trait) {entry : MergedIdentity} (he : entry ∈ m.table) (v : String) :
    a.established entry = some v ↔ Agreed a specs entry.identityId v
  omission (a : Trait) {spec : Json} {m' : Merged} (h : mergeIdentities (spec :: specs) = .ok m')
    {entry entry' : MergedIdentity} (he : entry ∈ m.table) (he' : entry' ∈ m'.table)
    (hid : entry'.identityId = entry.identityId)
    (homits : ∀ v, ¬ Declares a spec entry.identityId v) :
    a.established entry' = a.established entry ∧
      (a.name ∈ entry'.conflicts ↔ a.name ∈ entry.conflicts)
  questions {i : String} (h : Contradicted specs i) (hierarchies : List (List String)) :
    askable (m.table.filter fun entry => entry.identityId != i) hierarchies =
      askable m.table hierarchies
  drafts {i : String} (h : Contradicted specs i) {db : Db} {inventory : Inventory}
    {programId endpointId : String} {boundary : Boundary} {d : Draft}
    (hspecs : storedSpecs db programId = specs)
    (hd : draftForBoundary db inventory programId endpointId boundary = .ok d) :
    (∀ x ∈ d.identities, x.id ≠ i) ∧ ∀ r, d.resource = some r → r.ownerIdentity ≠ i

/-- Merging does not depend on the order of the cases, establishes what all declarations of an
attribute agree on, and keeps an identity with contradictory declarations out of every question
and every draft. -/
theorem mergeIdentities_conservative {specs : List Json}
    (htext : ∀ spec ∈ specs, TextCredentials spec) :
    (∀ specs', specs.Perm specs' → ∀ m,
      mergeIdentities specs = .ok m ↔ mergeIdentities specs' = .ok m) ∧
    ∀ m, mergeIdentities specs = .ok m → Conservative specs m := by
  refine ⟨fun specs' hperm m => mergeIdentities_perm hperm htext m, fun m hm => ?_⟩
  have hne : ∀ i, Contradicted specs i → ∀ entry ∈ established m.table, entry.identityId ≠ i :=
    fun i hc entry he => ne_of_established htext hm hc he
  constructor
  · exact exists_entry_iff hm
  · exact fun a {entry} he v => established_eq_some a hm he v
  · exact fun a {spec m'} h {entry entry'} he he' hid homits => omission a hm h he he' hid homits
  · exact fun {i} hc hierarchies => askable_without (hne i hc) hierarchies
  · intro i hc db inventory programId endpointId boundary d hspecs hd
    obtain ⟨cases, caseIds, hcases, hdraft⟩ := draftForBoundary_eq_ok hd
    obtain ⟨m', hm', hidentities, hresource⟩ := draftOf_eq_ok hdraft
    rw [hcases, hspecs] at hm'
    obtain rfl := Except.ok.inj (hm.symm.trans hm')
    refine ⟨fun x hx => ?_, fun r hr => ?_⟩
    · obtain ⟨entry, he, hid⟩ := hidentities x hx
      rw [hid]
      exact hne i hc entry he
    · obtain ⟨entry, he, hid⟩ := hresource r hr
      rw [hid]
      exact hne i hc entry he

/-- A case that declares one identity in a tenant. -/
def exampleSpec (tenant : String) : Json :=
  .obj [("identities", .arr [.obj [("id", .str "bob"), ("tenant_id", .str tenant)]])]

omit [Unicode] in
theorem mergeIdentities_conservative_bob :
    ∃ m, @mergeIdentities Unicode.ascii [exampleSpec "north", exampleSpec "south"] = .ok m ∧
      @Conservative Unicode.ascii [exampleSpec "north", exampleSpec "south"] m ∧
        (m.table.map MergedIdentity.conflicts) = [["tenant_id"]] := by
  let _ := Unicode.ascii
  have hlocal : ∀ tenant, localTable (exampleSpec tenant) =
      .ok [localIdentity (.obj [("id", .str "bob"), ("tenant_id", .str tenant)])] :=
    fun _ => rfl
  have htext : ∀ spec ∈ [exampleSpec "north", exampleSpec "south"], TextCredentials spec := by
    intro spec hspec table htable row hrow p hp
    simp only [List.mem_cons, List.not_mem_nil, or_false] at hspec
    have hplain : row.reference.parts = [.null, .null, .null, .null] := by
      rcases hspec with rfl | rfl
      · obtain rfl := Except.ok.inj ((hlocal "north").symm.trans htable)
        rw [List.mem_singleton.mp hrow]
        rfl
      · obtain rfl := Except.ok.inj ((hlocal "south").symm.trans htable)
        rw [List.mem_singleton.mp hrow]
        rfl
    rw [hplain] at hp
    simp only [List.mem_cons, List.not_mem_nil, or_false, or_self] at hp
    exact .inl hp
  have hmerged : (mergeIdentities [exampleSpec "north", exampleSpec "south"]).toOption.map
      (fun m => m.table.map MergedIdentity.conflicts) = some [["tenant_id"]] := by decide
  cases hm : mergeIdentities [exampleSpec "north", exampleSpec "south"] with
  | error e =>
    rw [hm] at hmerged
    cases hmerged
  | ok m =>
    rw [hm] at hmerged
    exact ⟨m, rfl, (mergeIdentities_conservative htext).2 m hm, Option.some.inj hmerged⟩

end VardrMap.Relationships
