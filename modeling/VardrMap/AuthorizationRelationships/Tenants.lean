import VardrMap.AuthorizationRelationships.Merging
import VardrMap.TestCases.Accepted

/-!
# Tenants of callers and objects

A caller and an object are compared by their tenants. `classify` compares the text of the caller
with the tenant of the resource as it stands, a draft compares two texts. The two differ for a
resource whose tenant is no text and is printed like the tenant of the caller.
-/
namespace VardrMap.Relationships
open Lib

variable [Unicode]

/-- The tenant of the object as a text: that of the resource, else that of the owner. -/
def objectTenantText (owner : LocalIdentity) (resource : Json) : Option String :=
  if (resource.field "tenant_id").truthy then some (resource.field "tenant_id").toStr
  else owner.tenantId

/-- The caller and the object have declared tenants, related as wanted. -/
def TenantsAre (wanted : String → String → Prop) (subject owner : LocalIdentity)
    (resource : Json) : Prop :=
  ∃ t o, subject.tenantId = some t ∧ objectTenantText owner resource = some o ∧ wanted t o

/-- The merged identities have the caller and the owner as the case declares them. -/
structure DraftPool (subject owner : LocalIdentity) (usable : List MergedIdentity)
    (entry : MergedIdentity) : Prop where
  mem : entry ∈ usable
  identityId : entry.identityId = subject.identityId
  anonymous : entry.anonymous = false
  tenantId : entry.tenantId = subject.tenantId
  owner_tenantId : ∀ v ∈ usable, v.identityId = owner.identityId → v.tenantId = owner.tenantId

/-- The classes of a caller are those of the texts of the tenants, and a draft for an operation
that this case reviews chooses the caller for the same boundaries. -/
structure TenantClasses (spec : Json) (subject owner : LocalIdentity) (classes : List Boundary) :
    Prop where
  cross : .crossTenant ∈ classes ↔
    TenantsAre (· ≠ ·) subject owner (objOrEmpty (spec.field "resource"))
  peer : .sameTenantPeer ∈ classes ↔
    TenantsAre (· = ·) subject owner (objOrEmpty (spec.field "resource"))
  draft {usable : List MergedIdentity} {entry : MergedIdentity}
    (h : DraftPool subject owner usable entry) (hne : subject.identityId ≠ owner.identityId)
    {anchor : Anchor} (hanchor : anchorOf (declaredOwner spec).toList usable = anchor)
    (howner : anchor.ownerId = some owner.identityId) (ho : anchor.objectTenant ≠ none)
    (hierarchies : List (List String)) :
    (entry ∈ (callersFor .crossTenant hierarchies usable anchor).1 ↔ .crossTenant ∈ classes) ∧
      (entry ∈ (callersFor .sameTenantPeer hierarchies usable anchor).1 ↔
        .sameTenantPeer ∈ classes)

/-- The tenant of the resource is no text, and is printed like the tenant of the caller. -/
def TenantClash (spec : Json) (subject : LocalIdentity) : Prop :=
  let tenant := (objOrEmpty (spec.field "resource")).field "tenant_id"
  tenant.truthy = true ∧ tenant.str? = none ∧ subject.tenantId = some tenant.toStr

/-! ## Rows -/

omit [Unicode] in
theorem mem_foldl_putLocal {rows table : List LocalIdentity} {row : LocalIdentity}
    (h : row ∈ rows.foldl putLocal table) : row ∈ table ∨ row ∈ rows := by
  induction rows generalizing table with
  | nil => exact .inl h
  | cons r rows ih =>
    rw [List.foldl_cons] at h
    rcases ih h with hput | hrows
    · unfold putLocal at hput
      split at hput
      · obtain ⟨r', hr', heq⟩ := List.mem_map.mp hput
        split at heq
        · exact .inr (by simp [← heq])
        · exact .inl (heq ▸ hr')
      · rcases List.mem_append.mp hput with hput | hput
        · exact .inl hput
        · exact .inr (by simp [List.mem_singleton.mp hput])
    · exact .inr (List.mem_cons_of_mem r hrows)

/-- A declared tenant is not empty. -/
theorem tenantId_ne_empty {spec : Json} {row : LocalIdentity} (h : DeclaresRow spec row) :
    row.tenantId ≠ some "" := by
  obtain ⟨table, htable, hrow⟩ := h
  unfold localTable at htable
  obtain ⟨value, -, htable⟩ := bind_eq_ok htable
  obtain ⟨identities, -, htable⟩ := bind_eq_ok htable
  obtain rfl := Except.ok.inj htable
  rcases mem_foldl_putLocal hrow with hrow | hrow
  · cases hrow
  obtain ⟨identity, -, rfl⟩ := List.mem_map.mp hrow
  unfold localIdentity nonempty
  dsimp only
  split
  · exact Option.some_ne_none _ |>.symm
  · rename_i hne
    intro heq
    rw [Option.some.inj heq] at hne
    exact hne (by rfl)

/-! ## The comparison of the tenants -/

/-- The text is that of the tenant that `classify` reads. -/
theorem objectTenantText_eq {spec : Json} {owner : LocalIdentity} (ho : DeclaresRow spec owner)
    (resource : Json) : objectTenantText owner resource =
      if (objectTenant owner resource).truthy then some (objectTenant owner resource).toStr
      else none := by
  unfold objectTenantText objectTenant Json.orElse
  split
  · rfl
  · cases ht : owner.tenantId with
    | none => rfl
    | some t =>
      have hne : t ≠ "" := fun heq => tenantId_ne_empty ho (heq ▸ ht)
      simp [Json.truthy, hne]

omit [Unicode] in
theorem str_pyEq_iff (t : String) (v : Json) : (Json.str t).pyEq v = true ↔ v = .str t := by
  cases v with
  | str s =>
    rw [Json.pyEq, beq_iff_eq, Json.str.injEq]
    exact eq_comm
  | _ => simp [Json.pyEq, Json.number?]

theorem mem_tenantClass (subject : LocalIdentity) (tenant : Json) :
    (.crossTenant ∈ (tenantClass subject tenant).map Prod.fst ↔
      ∃ t, subject.tenantId = some t ∧ tenant.truthy = true ∧ tenant ≠ .str t) ∧
    (.sameTenantPeer ∈ (tenantClass subject tenant).map Prod.fst ↔
      ∃ t, subject.tenantId = some t ∧ tenant.truthy = true ∧ tenant = .str t) := by
  unfold tenantClass
  cases hs : subject.tenantId with
  | none => simp
  | some own =>
    dsimp only
    by_cases htruthy : tenant.truthy = true
    · by_cases heq : tenant = .str own
      · have hpy := (str_pyEq_iff own tenant).mpr heq
        rw [if_neg (by simp [htruthy]), if_neg (by simp [hpy])]
        subst heq
        simp [htruthy]
      · have hpy : (Json.str own).pyEq tenant = false :=
          Bool.eq_false_iff.mpr fun h => heq ((str_pyEq_iff own tenant).mp h)
        rw [if_neg (by simp [htruthy]), if_pos (by simp [hpy])]
        simp [htruthy, heq]
    · simp [htruthy]

omit [Unicode] in
theorem privilegeClass_fst {hierarchy : List String} {subject owner : LocalIdentity} {b : Boundary}
    (h : b ∈ (privilegeClass hierarchy subject owner).map Prod.fst) : b = .higherPrivilege := by
  unfold privilegeClass at h
  split at h
  · split at h
    · simpa using h
    · cases h
  · cases h

/-- The classes of a caller with credentials, when the role hierarchy can be read. -/
theorem classify_eq_ok_iff {spec resource : Json} {subject owner : LocalIdentity}
    (hs : subject.anonymous = false) {classes : List (Boundary × String)} :
    classify spec subject owner resource = .ok classes ↔
      ∃ hierarchy, hierarchyOf spec = .ok hierarchy ∧
        tenantClass subject (objectTenant owner resource) ++
          privilegeClass hierarchy subject owner = classes := by
  unfold classify
  rw [hs, if_neg Bool.false_ne_true, bind_eq_ok_iff]
  exact exists_congr fun hierarchy => and_congr_right fun _ =>
    ⟨fun h => Except.ok.inj h, congrArg Except.ok⟩

theorem mem_classes {subject owner : LocalIdentity} {tenant : Json} {hierarchy : List String}
    {b : Boundary} (hb : b ≠ .higherPrivilege) :
    b ∈ (tenantClass subject tenant ++ privilegeClass hierarchy subject owner).map Prod.fst ↔
      b ∈ (tenantClass subject tenant).map Prod.fst := by
  rw [List.map_append, List.mem_append]
  exact or_iff_left fun h => hb (privilegeClass_fst h)

theorem tenantsAre_iff (subject : LocalIdentity) {spec : Json} {owner : LocalIdentity}
    (ho : DeclaresRow spec owner) (wanted : String → String → Prop) (resource : Json) :
    TenantsAre wanted subject owner resource ↔
      ∃ t, subject.tenantId = some t ∧ (objectTenant owner resource).truthy = true ∧
        wanted t (objectTenant owner resource).toStr := by
  unfold TenantsAre
  rw [objectTenantText_eq ho]
  constructor
  · rintro ⟨t, o, ht, hobject, hw⟩
    split at hobject
    · rename_i htruthy
      obtain rfl := Option.some.inj hobject
      exact ⟨t, ht, htruthy, hw⟩
    · cases hobject
  · rintro ⟨t, ht, htruthy, hw⟩
    exact ⟨t, _, ht, if_pos htruthy, hw⟩

/-- A tenant that is no text is never the caller's, but may be printed like it. -/
theorem tenantClash_iff (owner : LocalIdentity) {spec : Json} {subject : LocalIdentity} :
    TenantClash spec subject ↔
      (objectTenant owner (objOrEmpty (spec.field "resource"))).truthy = true ∧
      (objectTenant owner (objOrEmpty (spec.field "resource"))).str? = none ∧
      subject.tenantId = some (objectTenant owner (objOrEmpty (spec.field "resource"))).toStr := by
  unfold TenantClash objectTenant Json.orElse
  dsimp only
  split
  · rfl
  · rename_i htruthy
    refine iff_of_false (fun h => htruthy h.1) fun h => ?_
    cases ht : owner.tenantId with
    | none => simp [ht, Json.truthy] at h
    | some t => simp [ht, Json.str?] at h

/-! ## Drafts -/

/-- The draft of an operation that one case reviews has the tenant of that case. -/
theorem anchor_objectTenant {spec : Json} {subject owner : LocalIdentity}
    {usable : List MergedIdentity} {entry : MergedIdentity}
    (h : DraftPool subject owner usable entry) {anchor : Anchor}
    (hanchor : anchorOf (declaredOwner spec).toList usable = anchor)
    (howner : anchor.ownerId = some owner.identityId) :
    anchor.objectTenant = objectTenantText owner (objOrEmpty (spec.field "resource")) := by
  subst hanchor
  unfold declaredOwner at howner ⊢
  dsimp only at howner ⊢
  generalize hid : nonempty (((objOrEmpty (spec.field "resource")).field "owner_identity").toStrOr
    "") = ownerId at howner ⊢
  cases ownerId with
  | none => cases howner
  | some ownerId =>
    simp only [Option.map_some, Option.toList_some] at howner ⊢
    unfold anchorOf at howner ⊢
    simp only [List.map_cons, List.map_nil, List.dedup_cons_of_notMem List.not_mem_nil,
      List.dedup_nil] at howner ⊢
    cases hfind : usable.find? fun v => v.identityId == ownerId with
    | none =>
      rw [hfind] at howner
      cases howner
    | some w =>
      rw [hfind] at howner
      dsimp only at howner ⊢
      have hmem := List.mem_of_find?_eq_some hfind
      unfold objectTenantText
      by_cases htruthy : ((objOrEmpty (spec.field "resource")).field "tenant_id").truthy = true
      · rw [if_pos htruthy, if_pos htruthy]
        rfl
      · rw [if_neg htruthy] at howner ⊢
        rw [if_neg htruthy]
        exact h.owner_tenantId w hmem (Option.some.inj howner)

/-- A draft chooses a caller by the texts of the tenants. -/
theorem mem_callersFor {spec : Json} {subject owner : LocalIdentity}
    {usable : List MergedIdentity} {entry : MergedIdentity}
    (h : DraftPool subject owner usable entry) (hne : subject.identityId ≠ owner.identityId)
    {anchor : Anchor} (hanchor : anchorOf (declaredOwner spec).toList usable = anchor)
    (howner : anchor.ownerId = some owner.identityId) (ho : anchor.objectTenant ≠ none)
    (hierarchies : List (List String)) :
    (entry ∈ (callersFor .crossTenant hierarchies usable anchor).1 ↔
      TenantsAre (· ≠ ·) subject owner (objOrEmpty (spec.field "resource"))) ∧
    (entry ∈ (callersFor .sameTenantPeer hierarchies usable anchor).1 ↔
      TenantsAre (· = ·) subject owner (objOrEmpty (spec.field "resource"))) := by
  have hobject := anchor_objectTenant h hanchor howner
  have hpool : entry ∈ usable.filter fun v =>
      !v.anonymous && some v.identityId != anchor.ownerId := by
    refine List.mem_filter.mpr ⟨h.mem, ?_⟩
    rw [h.anonymous, h.identityId, howner]
    simpa using hne
  cases ht : anchor.objectTenant with
  | none => exact absurd ht ho
  | some o =>
    rw [ht] at hobject
    have htenants : ∀ wanted : String → String → Prop,
        TenantsAre wanted subject owner (objOrEmpty (spec.field "resource")) ↔
          ∃ t, subject.tenantId = some t ∧ wanted t o := by
      intro wanted
      unfold TenantsAre
      rw [← hobject]
      simp
    rw [htenants, htenants]
    simp only [callersFor, tenantCallers, ht, List.mem_filter (p := fun v : MergedIdentity =>
      v.tenantId.any _), hpool, true_and, h.tenantId, Option.any_eq_true, bne_iff_ne, beq_iff_eq]

/-! ## The comparison of the code -/

/-- The role hierarchy of an accepted case with a resource can be read. -/
theorem hierarchyOf_accepted {spec s : Json} (h : TestCases.validateSpec spec = .ok s)
    (hresource : (spec.field "resource").isObj = true) :
    ∃ hierarchy, hierarchyOf spec = .ok hierarchy := by
  obtain ⟨-, seen, hshape, -, -, hchecked, -⟩ := TestCases.validateSpec_eq_ok h
  have hobj : spec.isObj = true := by
    obtain ⟨⟨⟩, hspec, -⟩ := bind_eq_ok hshape
    simpa using (Bool.and_eq_true _ _ ▸ ensure_eq_ok hspec).1
  unfold TestCases.checkResource at hchecked
  obtain ⟨⟨⟩, -, hchecked⟩ := bind_eq_ok hchecked
  rw [if_pos hresource] at hchecked
  obtain ⟨⟨⟩, -, hchecked⟩ := bind_eq_ok hchecked
  obtain ⟨⟨⟩, hroles, -⟩ := bind_eq_ok hchecked
  have hsome := ensure_eq_ok hroles
  unfold hierarchyOf
  rw [TestCases.get_eq_field hobj]
  cases hr : (spec.field "role_hierarchy").orElse (.arr []) with
  | arr roles => exact ⟨roles.map Json.toStr, by simp only [bind, Except.bind, hr]; rfl⟩
  | _ =>
    rw [hr] at hsome
    cases hsome

/-- In an accepted case, `classify` compares the tenants as a draft does, and as their texts,
unless the tenant of the resource is no text and is printed like the caller's. -/
theorem classify_tenants {spec s : Json} (haccepted : TestCases.validateSpec spec = .ok s)
    {subject owner : LocalIdentity} (ho : DeclaresRow spec owner)
    (hanonymous : subject.anonymous = false) :
    ((spec.field "resource").isObj = true → ∃ classes,
      classify spec subject owner (objOrEmpty (spec.field "resource")) = .ok classes) ∧
    ∀ classes, classify spec subject owner (objOrEmpty (spec.field "resource")) = .ok classes →
      (TenantClasses spec subject owner (classes.map Prod.fst) ↔ ¬ TenantClash spec subject) := by
  constructor
  · intro hresource
    obtain ⟨hierarchy, hhierarchy⟩ := hierarchyOf_accepted haccepted hresource
    exact ⟨_, (classify_eq_ok_iff hanonymous).mpr ⟨hierarchy, hhierarchy, rfl⟩⟩
  intro classes hclassify
  obtain ⟨hierarchy, -, rfl⟩ := (classify_eq_ok_iff hanonymous).mp hclassify
  rw [tenantClash_iff owner]
  have hcross := tenantsAre_iff subject ho (· ≠ ·) (objOrEmpty (spec.field "resource"))
  have hpeer := tenantsAre_iff subject ho (· = ·) (objOrEmpty (spec.field "resource"))
  have hclasses := mem_tenantClass subject
    (objectTenant owner (objOrEmpty (spec.field "resource")))
  generalize htenant : objectTenant owner (objOrEmpty (spec.field "resource")) = tenant
    at hcross hpeer hclasses ⊢
  constructor
  · rintro h ⟨htruthy, hstr, ht⟩
    have hne : tenant ≠ .str tenant.toStr := by
      intro heq
      rw [heq] at hstr
      cases hstr
    obtain ⟨t, ht', -, hdiffer⟩ := hcross.mp (h.cross.mp ((mem_classes (by decide)).mpr
      (hclasses.1.mpr ⟨tenant.toStr, ht, htruthy, hne⟩)))
    exact hdiffer (Option.some.inj (ht'.symm.trans ht))
  · intro hclash
    have hsame : ∀ t, subject.tenantId = some t → tenant.truthy = true →
        (tenant = .str t ↔ t = tenant.toStr) := by
      intro t ht htruthy
      constructor
      · rintro rfl
        rfl
      · intro heq
        cases tenant with
        | str o => rw [heq, Json.toStr_str]
        | _ => exact absurd ⟨htruthy, rfl, heq ▸ ht⟩ hclash
    have hcrossIff : .crossTenant ∈ (tenantClass subject tenant ++
        privilegeClass hierarchy subject owner).map Prod.fst ↔
          TenantsAre (· ≠ ·) subject owner (objOrEmpty (spec.field "resource")) := by
      rw [mem_classes (by decide), hclasses.1, hcross]
      refine exists_congr fun t => and_congr_right fun ht => and_congr_right fun htruthy => ?_
      exact not_congr (hsame t ht htruthy)
    have hpeerIff : .sameTenantPeer ∈ (tenantClass subject tenant ++
        privilegeClass hierarchy subject owner).map Prod.fst ↔
          TenantsAre (· = ·) subject owner (objOrEmpty (spec.field "resource")) := by
      rw [mem_classes (by decide), hclasses.2, hpeer]
      exact exists_congr fun t => and_congr_right fun ht => and_congr_right fun htruthy =>
        hsame t ht htruthy
    refine ⟨hcrossIff, hpeerIff, ?_⟩
    intro usable entry hpool hne anchor hanchor howner hobject hierarchies
    rw [hcrossIff, hpeerIff]
    exact mem_callersFor hpool hne hanchor howner hobject hierarchies

omit [Unicode] in
/-- An identity of a tenant. -/
def tenantIdentity (id tenant : String) : Json :=
  .obj [("id", .str id), ("tenant_id", .str tenant),
    ("credential", .obj [("type", .str "bearer"), ("value_env", .str "SHOP_TOKEN")])]

omit [Unicode] in
/-- A case about an object of bob, in a tenant. -/
def tenantCase (tenant : Json) : Json :=
  TestCases.exampleCase [tenantIdentity "alice" "5", tenantIdentity "bob" "7"]
    [("resource", .obj [("owner_identity", .str "bob"), ("tenant_id", tenant)])]

theorem tenantCase_rows (tenant : Json) :
    DeclaresRow (tenantCase tenant) (localIdentity (tenantIdentity "alice" "5")) ∧
      DeclaresRow (tenantCase tenant) (localIdentity (tenantIdentity "bob" "7")) := by
  have htable : localTable (tenantCase tenant) =
      .ok [localIdentity (tenantIdentity "alice" "5"), localIdentity (tenantIdentity "bob" "7")] :=
    rfl
  exact ⟨⟨_, htable, by simp⟩, ⟨_, htable, by simp⟩⟩

omit [Unicode] in
theorem classify_tenants_text : let _ := Unicode.ascii; let spec := tenantCase (.str "7")
    ∃ subject owner classes, DeclaresRow spec subject ∧
      classify spec subject owner (objOrEmpty (spec.field "resource")) = .ok classes ∧
        TenantClasses spec subject owner (classes.map Prod.fst) := by
  intro _ spec
  have haccepted : TestCases.validateSpec spec = .ok spec := by decide +kernel
  obtain ⟨hs, ho⟩ := tenantCase_rows (.str "7")
  have hclassify := classify_tenants haccepted ho
    (show (localIdentity (tenantIdentity "alice" "5")).anonymous = false from rfl)
  obtain ⟨classes, hclasses⟩ := hclassify.1 rfl
  refine ⟨_, _, classes, hs, hclasses, (hclassify.2 classes hclasses).mpr ?_⟩
  rintro ⟨-, hstr, -⟩
  cases hstr

omit [Unicode] in
/-- A tenant that is a number is not the text that it is printed as. -/
theorem classify_tenants_number : let _ := Unicode.ascii
    ¬ ∀ spec subject owner classes, TestCases.validateSpec spec = .ok spec →
      DeclaresRow spec subject → DeclaresRow spec owner → subject.anonymous = false →
      classify spec subject owner (objOrEmpty (spec.field "resource")) = .ok classes →
        TenantClasses spec subject owner (classes.map Prod.fst) := by
  intro _ hall
  have haccepted : TestCases.validateSpec (tenantCase (.int 5)) = .ok (tenantCase (.int 5)) := by
    decide +kernel
  obtain ⟨hs, ho⟩ := tenantCase_rows (.int 5)
  have h := hall _ _ _ _ haccepted hs ho rfl rfl
  obtain ⟨t, o, ht, ho, hne⟩ := h.cross.mp (by decide)
  obtain rfl : "5" = t := Option.some.inj ht
  exact hne (Option.some.inj ho)

end VardrMap.Relationships
