import VardrMap.AuthorizationCoverage
import VardrMap.Lib.Agreement

/-!
# Relationships between identities

Stored cases declare a role, a tenant and a credential for each identity. `mergeIdentities` puts
the declarations of an engagement together: an attribute is established only where every
declaration of it agrees. `classify` says how a caller relates to the owner of an object in the
words of one case; `askable` and `draftForBoundary` work with the merged identities.
-/
namespace VardrMap.Relationships
open Lib

/-- `CLASSES`. -/
inductive Boundary where
  | crossTenant
  | sameTenantPeer
  | higherPrivilege
  | anonymous
  deriving DecidableEq

/-! ## One case -/

/-- `_credential`. -/
def credentialOf (identity : Json) : Json := objOrEmpty (identity.field "credential")

/-- `_is_anonymous`. -/
def isAnonymous (identity : Json) : Bool :=
  let credential := credentialOf identity
  credential.field "type" == .str "static_header" && !(credential.field "header").truthy

/-- What a credential refers to; no value is read. -/
structure Reference where
  type : Json
  header : Json
  valueEnv : Json
  valueKeychain : Json
  deriving DecidableEq

/-- `_reference`. -/
def referenceOf (identity : Json) : Reference :=
  let credential := credentialOf identity
  { type := credential.field "type"
    header := (credential.field "header").orElse .null
    valueEnv := (credential.field "value_env").orElse .null
    valueKeychain := (credential.field "value_keychain").orElse .null }

def Reference.parts (r : Reference) : List Json := [r.type, r.header, r.valueEnv, r.valueKeychain]

/-- Equality of tuples. -/
def Reference.same (r s : Reference) : Bool := Json.pyEqList r.parts s.parts

/-- A tuple with a list or a dictionary in it cannot be put into a set. -/
def Reference.asKey (r : Reference) : Except Exn Unit :=
  if r.parts.all Json.hashable then .ok () else .error .typeError

/-- What one case declares about an identity. -/
structure LocalIdentity where
  identityId : String
  role : Option String
  tenantId : Option String
  anonymous : Bool
  reference : Reference
  deriving DecidableEq

variable [Unicode]

def localIdentity (identity : Json) : LocalIdentity where
  identityId := (identity.field "id").toStr
  role := nonempty ((identity.field "role").toStrOr "")
  tenantId := nonempty ((identity.field "tenant_id").toStrOr "")
  anonymous := isAnonymous identity
  reference := referenceOf identity

omit [Unicode] in
/-- `table[row.identity_id] = row`. -/
def putLocal (table : List LocalIdentity) (row : LocalIdentity) : List LocalIdentity :=
  if table.any fun r => r.identityId == row.identityId then
    table.map fun r => if r.identityId == row.identityId then row else r
  else table ++ [row]

/-- `_local_table`. -/
def localTable (spec : Json) : Except Exn (List LocalIdentity) := do
  let identities ← ((← spec.get "identities").orElse (.arr [])).iter
  let named := identities.filter fun i => i.isObj && (i.field "id").truthy
  return (named.map localIdentity).foldl putLocal []

/-! ## All cases -/

/-- What the cases have declared about one identity. -/
structure Seen where
  role : List String
  tenantId : List String
  kind : List String
  reference : List Reference

omit [Unicode] in
def LocalIdentity.kind (row : LocalIdentity) : String :=
  if row.anonymous then "anonymous" else "credentialed"

omit [Unicode] in
/-- The declarations about an identity, each set filled row by row. -/
def seenOf (rows : List LocalIdentity) (identityId : String) : Seen :=
  let own := rows.filter fun r => r.identityId == identityId
  { role := distinct (· == ·) (own.filterMap LocalIdentity.role)
    tenantId := distinct (· == ·) (own.filterMap LocalIdentity.tenantId)
    kind := distinct (· == ·) (own.map LocalIdentity.kind)
    reference := distinct Reference.same (own.map LocalIdentity.reference) }

/-- `" ".join(str(p) for p in ref if p)`. -/
def Reference.text (r : Reference) : String :=
  String.intercalate " " ((r.parts.filter Json.truthy).map Json.toStr)

omit [Unicode] in
/-- The values of an attribute, when there are several. -/
def disputed (attribute_ : String) (values : List String) : List (String × List String) :=
  if 1 < values.length then [(attribute_, sortBy id values)] else []

/-- The kinds of a credential, and what it refers to when the kinds agree. -/
def Seen.credentialDispute (seen : Seen) : List (String × List String) :=
  if 1 < seen.kind.length then [("credential", sortBy id seen.kind)]
  else if 1 < seen.reference.length then
    [("credential", sortBy id (seen.reference.map Reference.text))]
  else []

/-- The attributes about which the cases disagree, with their values. -/
def Seen.disputes (seen : Seen) : List (String × List String) :=
  disputed "role" seen.role ++ disputed "tenant_id" seen.tenantId ++ seen.credentialDispute

/-- An identity of the engagement. -/
structure MergedIdentity where
  identityId : String
  role : Option String
  tenantId : Option String
  anonymous : Bool
  conflicts : List String
  reference : Option Reference
  deriving DecidableEq

def Seen.merged (seen : Seen) (identityId : String) : MergedIdentity where
  identityId
  role := sole seen.role
  tenantId := sole seen.tenantId
  anonymous := seen.kind == ["anonymous"]
  conflicts := seen.disputes.map Prod.fst
  reference := sole seen.reference

/-- An entry of `identity_conflicts`. -/
structure Conflict where
  identityId : String
  attribute_ : String
  values : List String
  deriving DecidableEq

/-- The engagement as its cases declare it. -/
structure Merged where
  table : List MergedIdentity
  conflicts : List Conflict
  deriving DecidableEq

/-- The identities that the rows are about, each put together from its rows. -/
def mergeRows (rows : List LocalIdentity) : Merged :=
  let ids := sortedSet (rows.map LocalIdentity.identityId)
  { table := ids.map fun i => (seenOf rows i).merged i
    conflicts := ids.flatMap fun i => (seenOf rows i).disputes.map fun d => ⟨i, d.1, d.2⟩ }

/-- The declarations of a case, put into the sets. -/
def readTable (spec : Json) : Except Exn (List LocalIdentity) := do
  let table ← localTable spec
  table.forM fun row => row.reference.asKey
  return table

/-- `merge_identities`. -/
def mergeIdentities (specs : List Json) : Except Exn Merged := do
  return mergeRows (← specs.mapM readTable).flatten

/-! ## Classes -/

/-- The roles of a case, from the lowest to the highest. -/
def hierarchyOf (spec : Json) : Except Exn (List String) := do
  let roles ← ((← spec.get "role_hierarchy").orElse (.arr [])).iter
  return roles.map Json.toStr

/-- The tenant of the object as `classify` reads it: as it stands in the resource, else the
declared one of the owner. -/
def objectTenant (owner : LocalIdentity) (resource : Json) : Json :=
  (resource.field "tenant_id").orElse ((owner.tenantId.map Json.str).getD .null)

/-- The comparison of the tenants. -/
def tenantClass (subject : LocalIdentity) (tenant : Json) : List (Boundary × String) :=
  match subject.tenantId with
  | some own =>
    if !tenant.truthy then []
    else if !(Json.str own).pyEq tenant then
      [(.crossTenant, s!"{subject.identityId} is declared in tenant {own}; the object is in " ++
        tenant.toStr)]
    else [(.sameTenantPeer, s!"{subject.identityId} and the object share tenant {tenant.toStr}")]
  | none => []

omit [Unicode] in
/-- The comparison of the roles. -/
def privilegeClass (hierarchy : List String) (subject owner : LocalIdentity) :
    List (Boundary × String) :=
  match subject.role, owner.role with
  | some own, some other =>
    if hierarchy.contains own && hierarchy.contains other &&
        hierarchy.idxOf other < hierarchy.idxOf own then
      [(.higherPrivilege,
        s!"{subject.identityId} ({own}) outranks the owner ({other}) in the role hierarchy")]
    else []
  | _, _ => []

/-- `classify`: classes, each with its basis. -/
def classify (spec : Json) (subject owner : LocalIdentity) (resource : Json) :
    Except Exn (List (Boundary × String)) := do
  if subject.anonymous then
    return [(.anonymous, s!"{subject.identityId} sends no credentials")]
  let hierarchy ← hierarchyOf spec
  return tenantClass subject (objectTenant owner resource) ++
    privilegeClass hierarchy subject owner

/-! ## Questions that can be asked -/

omit [Unicode] in
/-- Nothing is built on an identity about which the cases disagree. -/
def established (table : List MergedIdentity) : List MergedIdentity :=
  table.filter fun i => i.conflicts.isEmpty

omit [Unicode] in
/-- What can be asked about a class of callers, and why. -/
structure Askable where
  can : Boundary → Bool
  basis : Boundary → String

omit [Unicode] in
/-- `_askable`. -/
def askable (table : List MergedIdentity) (hierarchies : List (List String)) : Askable :=
  let people := (established table).filter fun i => !i.anonymous
  let size := fun tenant => people.countP fun p => p.tenantId == some tenant
  let tenants := sortedSet (people.filterMap MergedIdentity.tenantId)
  let shared := tenants.filter fun tenant => 2 ≤ size tenant
  let ranked := sortedSet (hierarchies.flatten.filter fun r => people.any fun p => p.role == some r)
  let anonymous := sortBy id
    (((established table).filter MergedIdentity.anonymous).map MergedIdentity.identityId)
  { can := fun
      | .crossTenant => 2 ≤ tenants.length
      | .sameTenantPeer => !shared.isEmpty
      | .higherPrivilege => 2 ≤ ranked.length
      | .anonymous => !anonymous.isEmpty
    basis := fun
      | .crossTenant =>
          "Identities are declared in tenants: " ++ String.intercalate ", " tenants ++ "."
      | .sameTenantPeer => "Several identities share a tenant: " ++
          String.intercalate ", " (shared.map fun t => s!"{t} ({size t})") ++ "."
      | .higherPrivilege =>
          "Roles in a case's role hierarchy: " ++ String.intercalate ", " ranked ++ "."
      | .anonymous => "An identity without credentials is declared: " ++
          String.intercalate ", " anonymous ++ "." }

/-! ## Drafts -/

/-- The owner that the resource of a case names, with the tenant of the resource as a text. -/
def declaredOwner (spec : Json) : Option (String × Option String) :=
  let resource := objOrEmpty (spec.field "resource")
  (nonempty ((resource.field "owner_identity").toStrOr "")).map fun owner =>
    (owner, if (resource.field "tenant_id").truthy then some (resource.field "tenant_id").toStr
      else none)

/-- Whose object an operation is about, and in which tenant it is. -/
structure Anchor where
  owner : Option MergedIdentity
  tenantConflict : Bool
  objectTenant : Option String
  missing : List String

omit [Unicode] in
def Anchor.ownerId (anchor : Anchor) : Option String := anchor.owner.map MergedIdentity.identityId

omit [Unicode] in
/-- The owner comes from the reviewed cases of the operation, `owners` being what these declare,
and from an identity that can be built on. -/
def anchorOf (owners : List (String × Option String)) (usable : List MergedIdentity) : Anchor :=
  match (owners.map Prod.fst).dedup with
  | [] => ⟨none, false, none, ["resource.owner_identity: no reviewed case for this operation " ++
      "says who owns the object under test."]⟩
  | [ownerId] =>
    match usable.find? fun v => v.identityId == ownerId with
    | none => ⟨none, false, none,
        [s!"The owner {ownerId} has contradictory declarations, so it cannot anchor a draft."]⟩
    | some owner =>
      match sortedSet (owners.filterMap Prod.snd) with
      | [] => ⟨some owner, false, owner.tenantId, []⟩
      | [tenant] => ⟨some owner, false, some tenant, []⟩
      | tenants => ⟨some owner, true, none, ["resource.tenant_id: reviewed cases for this " ++
          "operation name different tenants (" ++ String.intercalate ", " tenants ++
            "); choose one."]⟩
  | ids => ⟨none, false, none, ["resource.owner_identity: reviewed cases for this operation " ++
      "name different owners (" ++ String.intercalate ", " (sortBy id ids) ++ "); choose one."]⟩

omit [Unicode] in
/-- The callers whose tenant compares as wanted to the tenant of the object; all that have a
tenant when the object has none. -/
def tenantCallers (wanted : String → String → Bool) (pool : List MergedIdentity) (anchor : Anchor) :
    List MergedIdentity :=
  match anchor.objectTenant with
  | some tenant => pool.filter fun v => v.tenantId.any fun own => wanted own tenant
  | none => if anchor.tenantConflict then [] else pool.filter fun v => v.tenantId.isSome

omit [Unicode] in
/-- What is missing to compare the tenants. -/
def tenantMissing (anchor : Anchor) (chosen : List MergedIdentity) (none_ : String) : List String :=
  (if anchor.objectTenant.isNone && !anchor.tenantConflict && anchor.owner.isSome then
    ["resource.tenant_id: neither the object's tenant nor its owner's tenant is declared."]
    else []) ++
  (if chosen.isEmpty then [none_] else [])

/-- The different role hierarchies of the cases. -/
def hierarchiesOf (specs : List Json) : Except Exn (List (List String)) := do
  let hierarchies ← specs.mapM hierarchyOf
  return (hierarchies.filter fun h => !h.isEmpty).dedup

/-- The hierarchies are read for one boundary only. -/
def draftHierarchies (boundary : Boundary) (specs : List Json) :
    Except Exn (List (List String)) :=
  if boundary == .higherPrivilege then hierarchiesOf specs else .ok []

omit [Unicode] in
/-- The callers that outrank the owner, and what is missing to say so. -/
def privilegeCallers (hierarchies : List (List String)) (pool : List MergedIdentity)
    (anchor : Anchor) : List MergedIdentity × List String :=
  match hierarchies with
  | [] => ([], ["role_hierarchy: no case declares one."])
  | [hierarchy] =>
    let ranked := pool.filter fun v => v.role.any hierarchy.contains
    match anchor.owner with
    | none => (ranked, ["The owner is not known, so 'higher than the owner' cannot be decided."])
    | some owner =>
      let (chosen, missing) :=
        match owner.role.filter hierarchy.contains with
        | some role => (ranked.filter fun v =>
            v.role.any fun own => hierarchy.idxOf role < hierarchy.idxOf own, [])
        | none => (ranked, ["The owner's role is not declared in the role hierarchy."])
      (chosen, missing ++ if chosen.isEmpty then
        ["No identity with a higher role than the owner is declared."] else [])
  | _ => ([], ["role_hierarchy: cases declare different hierarchies; choose one."])

omit [Unicode] in
/-- The callers of a draft for a boundary, and what is missing to choose them. -/
def callersFor (boundary : Boundary) (hierarchies : List (List String))
    (usable : List MergedIdentity) (anchor : Anchor) : List MergedIdentity × List String :=
  let pool := usable.filter fun v => !v.anonymous && some v.identityId != anchor.ownerId
  match boundary with
  | .anonymous =>
    let chosen := usable.filter MergedIdentity.anonymous
    (chosen, if chosen.isEmpty then
      ["No anonymous identity has been declared; add one with no credentials."] else [])
  | .crossTenant =>
    let chosen := tenantCallers (fun own tenant => own != tenant) pool anchor
    (chosen, tenantMissing anchor chosen "No identity in a different tenant is declared.")
  | .sameTenantPeer =>
    let chosen := tenantCallers (fun own tenant => own == tenant) pool anchor
    (chosen, tenantMissing anchor chosen
      "No second identity in the owner's tenant is declared.")
  | .higherPrivilege => privilegeCallers hierarchies pool anchor

/-- An identity of a draft. -/
structure DraftIdentity where
  id : String
  credential : List (String × Json)
  role : Option String
  tenantId : Option String
  deriving DecidableEq

omit [Unicode] in
/-- Only the reference of a credential is copied. -/
def draftIdentity (item : MergedIdentity) : Except Exn DraftIdentity := do
  let some reference := item.reference | .error .typeError
  let credential := (["type", "header", "value_env", "value_keychain"].zip
    reference.parts).filter fun p => p.2.truthy
  return {
    id := item.identityId
    credential := if item.anonymous then
        [("type", .str "static_header"), ("header", .str ""), ("value", .str "")]
      else credential
    role := item.role
    tenantId := item.tenantId }

structure DraftResource where
  ownerIdentity : String
  tenantId : Option String
  deriving DecidableEq

/-- A draft of one boundary question, for review only. -/
structure Draft where
  identities : List DraftIdentity
  resource : Option DraftResource
  roleHierarchy : Option (List String)
  missingContext : List String
  conflicts : List Conflict
  deriving DecidableEq

/-- `_DRAFT_IDENTITY_LIMIT`. -/
def draftIdentityLimit : ℕ := 6

/-- The draft from the cases of an engagement, by their identifiers, and the identifiers of the
cases that match the operation. -/
def draftOf (cases : List (String × Json)) (caseIds : List String) (boundary : Boundary) :
    Except Exn Draft := do
  let merged ← mergeIdentities (cases.map Prod.snd)
  let owners := caseIds.filterMap fun i => declaredOwner ((cases.lookup i).getD (.obj []))
  let usable := established merged.table
  let anchor := anchorOf owners usable
  let hierarchies ← draftHierarchies boundary (cases.map Prod.snd)
  let (chosen, missing) := callersFor boundary hierarchies usable anchor
  let identities ← (anchor.owner.toList ++ chosen.take draftIdentityLimit).mapM draftIdentity
  let disputed := merged.conflicts.filter fun c =>
    merged.table.any fun i => i.identityId == c.identityId && !i.conflicts.isEmpty
  return {
    identities
    resource := anchor.ownerId.map fun i => ⟨i, anchor.objectTenant⟩
    roleHierarchy := sole hierarchies
    missingContext := anchor.missing ++ missing ++
      (if disputed.isEmpty then [] else
        ["Identities with contradictory declarations were left out: " ++
          String.intercalate ", " (sortedSet (disputed.map Conflict.identityId)) ++ "."]) ++
      ["resource.type and resource.object_id: set the concrete object under test."]
    conflicts := disputed }

/-- `draft_for_boundary`. -/
def draftForBoundary (db : Db) (inventory : Inventory) (programId endpointId : String)
    (boundary : Boundary) : Except Exn Draft := do
  let coverage ← buildCoverage db inventory programId
  let op := coverage.operations.find? fun o => o.endpoint.id == endpointId
  let cases := (db.testCases.rows.filter fun c => c.programId == programId).map fun c =>
    (c.id, objOrEmpty c.spec)
  draftOf cases ((op.map Operation.cases).getD [] |>.map CaseEntry.caseId) boundary

end VardrMap.Relationships
