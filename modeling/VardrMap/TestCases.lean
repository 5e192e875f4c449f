import VardrMap.Models
import VardrMap.Lib.Url

/-!
# Stored test cases

A case is stored as the document its author sends, after `_validate_spec` has looked at it: its
shape, that no identity carries a live credential, that nothing in it refers to the environment
of the runner, and that a preflight stays on the origin of the request.
-/
namespace VardrMap.TestCases
open Lib

variable [Unicode]

/-! ## Reading a document -/

/-- `str(value or "").strip()` is not empty. -/
def present (value : Json) : Bool := !(Text.strip (value.toStrOr "").toList).isEmpty

/-- One of the fixed texts; a list or an object cannot be looked up. -/
def isOneOf (value : Json) (names : List String) : Except Exn Bool := do
  let key ← value.asKey
  return names.any fun name => key == .str name

/-- An element of a list, as a refusal names it. -/
def element (name : String) (i : ℕ) : String := s!"{name}[{i}]"

def badRequest (detail : String) : Refusal := .http 400 detail

/-- `sub in text`. -/
def mentions (sub : String) (text : Text) : Bool := (Text.cut sub.toList text).isSome

def utf8Length (text : String) : ℕ := (Sha256.utf8 text.toList).length

/-- `for x in value or []`. -/
def eachOf (value : Json) : Except Refusal (List Json) := raise (value.orElse (.arr [])).iter

mutual

/-- `json.dumps(value, separators=(",", ":"))`. -/
def compact : Json → Text
  | .null => "null".toList
  | .bool b => (if b then "true" else "false").toList
  | .int n => (toString n).toList
  | .float _ r => r.toList
  | .nonfinite r => r.toList
  | .str s => Json.quote s
  | .arr xs => '[' :: Json.commaSep (compactList xs) ++ [']']
  | .obj fs => '\x7b' :: Json.commaSep (compactFields fs) ++ ['\x7d']

def compactList : List Json → List Text
  | [] => []
  | x :: xs => compact x :: compactList xs

def compactFields : List (String × Json) → List Text
  | [] => []
  | (k, x) :: fs => (Json.quote k ++ ':' :: compact x) :: compactFields fs

end

/-! ## Identities -/

/-- `_CREDENTIAL_TYPES`. -/
def credentialTypes : List String := ["bearer", "api_key_header", "static_header"]

/-- `_SECRET_REFS`. -/
def secretRefs : List String := ["value_env", "value_keychain"]

/-- `_MAX_SPEC_BYTES`. -/
def maxSpecBytes : ℕ := 256000

/-- `_case_identities`. -/
def caseIdentities (spec : Json) : Except Refusal (List Json) := do
  let identities ← eachOf (spec.field "identities")
  let verification := spec.field "write_verification"
  return if verification.hasField "identity" then identities ++ [verification.field "identity"]
    else identities

/-- One identity of `_reject_literal_credentials`. -/
def rejectLiteralCredential (identity : Json) (i : ℕ) : Except Refusal Unit := do
  let at_ := element "identities" i
  ensure identity.isObj (badRequest s!"{at_} must be an object")
  let cred := identity.field "credential"
  ensure cred.isObj (badRequest s!"{at_} must have a credential object")
  let ctype := cred.field "type"
  let known ← raise (isOneOf ctype credentialTypes)
  ensure known (badRequest (s!"{at_}.credential.type must be one of " ++
    "['api_key_header', 'bearer', 'static_header']"))
  ensure (!present (cred.field "value")) (badRequest (s!"{at_}.credential must not contain a " ++
    "literal 'value' — reference the secret with 'value_env' or 'value_keychain' so it is " ++
    "resolved on the runner and never stored here"))
  let refs := secretRefs.filter fun r => present (cred.field r)
  ensure (refs.length ≤ 1) (badRequest (s!"{at_}.credential may specify at most one of " ++
    "['value_env', 'value_keychain']"))
  ensure (!(refs.isEmpty && ctype != .str "static_header")) (badRequest
    (s!"{at_}.credential of type '" ++ ctype.toStr ++ "' needs 'value_env' or 'value_keychain'"))
  ensure (!(!refs.isEmpty && ctype == .str "static_header" && !present (cred.field "header")))
    (badRequest s!"{at_}.credential static_header needs a header name")

/-- `_reject_literal_credentials`. -/
def rejectLiteralCredentials (spec : Json) : Except Refusal Unit := do
  let identities ← caseIdentities spec
  identities.zipIdx.forM fun p => rejectLiteralCredential p.1 p.2

/-! ## Environment references -/

/-- The refusal of a text with an environment reference. -/
def environmentReference (path : String) : Refusal :=
  badRequest (path ++ " must not contain a $\x7b...\x7d environment reference; reference " ++
    "credentials with 'value_env' or 'value_keychain'")

def rejectReference (text path : String) : Except Refusal Unit :=
  ensure (!mentions "$\x7b" text.toList) (environmentReference path)

mutual

/-- `_reject_environment_references`. -/
def rejectEnvironmentReferences (path : String) : Json → Except Refusal Unit
  | .str s => rejectReference s path
  | .obj fs => rejectReferenceFields path fs
  | .arr xs => rejectReferenceList path 0 xs
  | _ => .ok ()

def rejectReferenceFields (path : String) : List (String × Json) → Except Refusal Unit
  | [] => .ok ()
  | (k, x) :: fs => do
    rejectReference k s!"{path} key"
    rejectEnvironmentReferences s!"{path}.{k}" x
    rejectReferenceFields path fs

def rejectReferenceList (path : String) (i : ℕ) : List Json → Except Refusal Unit
  | [] => .ok ()
  | x :: xs => do
    rejectEnvironmentReferences (element path i) x
    rejectReferenceList path (i + 1) xs

end

/-! ## Preflights -/

/-- Scheme, host and port of a split URL, which holds neither user information nor a fragment. -/
def originOf (parsed : SplitUrl) : Except Exn (Text × Text × ℕ) :=
  match parsed.hostname with
  | none => .error .valueError
  | some host =>
    if !(["http".toList, "https".toList].contains parsed.scheme) || parsed.username.isSome ||
        !parsed.fragment.isEmpty then .error .valueError
    else do
      let port ← parsed.port
      if port == some 0 then .error .valueError
      else
        let default := if parsed.scheme == "https".toList then 443 else 80
        return (parsed.scheme, Unicode.lower host, port.getD default)

/-- `_preflight_origin`. -/
def preflightOrigin : Json → Except Exn (Text × Text × ℕ)
  | .str raw =>
    if 2000 < utf8Length raw then .error .valueError
    else Url.urlsplit raw.toList >>= originOf
  | _ => .error .valueError

/-- The URL of a preflight has no variables and is on the origin of the request. -/
def preflightUrl (spec url : Json) : Except Exn Unit := do
  let plain := url.str?.any fun s => !mentions "\x7b\x7b" s.toList && !mentions "$\x7b" s.toList
  if !plain then .error .valueError
  else
    let origin ← preflightOrigin url
    let request ← (← spec.item "request").item "url"
    if origin == (← preflightOrigin request) then return else .error .valueError

/-- A `ValueError` is answered with a refusal. -/
def refuseValueError {α : Type} (refusal : Refusal) : Except Exn α → Except Refusal α
  | .ok a => .ok a
  | .error .valueError => .error refusal
  | .error e => .error (.raised e)

/-- The keys of an object, whatever their order. -/
def hasKeys (value : Json) (keys : List String) : Bool :=
  value.isObj && (value.keys.all fun k => keys.contains k) && keys.all fun k => value.hasField k

/-- One to eight matches of a path and a text, each neither empty nor too long. -/
def scalarMatches : Json → Bool
  | .obj fs => 1 ≤ fs.length && fs.length ≤ 8 && fs.all fun f =>
      utf8Length f.1 ≤ 200 && ((Text.fields '.' f.1.toList).all fun part =>
        !(Text.strip part).isEmpty) &&
      f.2.str?.any fun value => !(Text.strip value.toList).isEmpty && utf8Length value ≤ 200
  | _ => false

/-- The identity of a preflight carries its credential as a reference. -/
def hasReference (cred : Json) : List String → Except Exn Bool
  | [] => .ok false
  | r :: rs => do if present (← cred.get r) then return true else hasReference cred rs

/-- One identity of `_validate_preflight`. -/
def checkPreflight (spec identity : Json) (i : ℕ) : Except Refusal Unit := do
  let p ← raise (identity.get "preflight")
  if p == .null then return
  let label := element "identities" i ++ ".preflight"
  ensure (hasKeys p ["url", "expected_status", "json_fields"])
    (badRequest s!"{label} requires only url, expected_status and json_fields")
  refuseValueError (badRequest (label ++ " needs an absolute HTTP URL on the request's origin, " ++
    "without userinfo, fragment or variables")) (preflightUrl spec (p.field "url"))
  ensure ((p.field "expected_status").int?.any fun code => 200 ≤ code && code < 300)
    (badRequest s!"{label}.expected_status must be a 2xx integer")
  ensure (scalarMatches (p.field "json_fields")) (badRequest (label ++ ".json_fields needs 1 to 8 " ++
    "nonempty scalar matches, at most 200 UTF-8 bytes per path/value"))
  let cred ← raise (identity.item "credential")
  let id ← raise (identity.item "id")
  ensure (id.str?.any fun s => 1 ≤ utf8Length s && utf8Length s ≤ 200)
    (badRequest s!"{label} identity id must be a string of at most 200 UTF-8 bytes")
  let referenced ← raise (hasReference cred secretRefs)
  ensure referenced (badRequest s!"{label} requires an authenticated local credential reference")

/-- `_validate_preflight`. -/
def validatePreflight (spec : Json) : Except Refusal Unit := do
  let identities ← caseIdentities spec
  identities.zipIdx.forM fun p => checkPreflight spec p.1 p.2

/-! ## The specification -/

/-- The identifier of an identity, empty without one. -/
def identName (identity : Json) : Text :=
  if identity.isObj then Text.strip ((identity.field "id").toStrOr "").toList else []

/-- The identifiers of the identities, all different. -/
def checkIdentities : ℕ → List Json → List Text → Except Refusal (List Text)
  | _, [], seen => .ok seen
  | i, identity :: identities, seen => do
    let name := identName identity
    ensure (!name.isEmpty) (badRequest (element "identities" i ++ " must have an id"))
    ensure (!seen.contains name)
      (badRequest ("duplicate identity id '" ++ String.ofList name ++ "'"))
    checkIdentities (i + 1) identities (seen ++ [name])

/-- A method that changes something. -/
def changes (method : Text) : Bool := ["POST", "PUT", "PATCH", "DELETE"].any fun m => m.toList == method

/-- `str(request.get("method") or "").upper()`. -/
def methodOf (request : Json) : Text := Unicode.upper ((request.field "method").toStrOr "").toList

/-- `spec.get("mutating") is True`. -/
def mutating (spec : Json) : Bool := spec.field "mutating" == .bool true

def checkRequest (spec : Json) : Except Refusal Unit := do
  let request := spec.field "request"
  ensure request.isObj (badRequest "spec.request is required")
  ensure (present (request.field "method")) (badRequest "spec.request.method is required")
  ensure (present (request.field "url")) (badRequest "spec.request.url is required")
  let method := methodOf request
  ensure (!(changes method && !mutating spec))
    (badRequest s!"request method {String.ofList method} requires spec.mutating=true")

/-- One entry of `expected_access`. -/
def checkExpected (seen : List Text) (expected : Json) (i : ℕ) : Except Refusal Unit := do
  let entry := element "expected_access" i
  ensure expected.isObj (badRequest s!"{entry} must be an object")
  ensure (seen.contains ((expected.field "identity_id").toStrOr "").toList)
    (badRequest s!"{entry}.identity_id does not match any identity")
  let known ← raise (isOneOf (expected.field "decision") ["allow", "deny", "skip"])
  ensure known (badRequest s!"{entry}.decision must be allow, deny, or skip")

/-- The loop over `expected_access`. -/
def checkExpectedAccess (spec : Json) (seen : List Text) : Except Refusal Unit := do
  let expected ← eachOf (spec.field "expected_access")
  expected.zipIdx.forM fun p => checkExpected seen p.1 p.2

/-- One entry of `deny_status`. -/
def checkDenyCode (code : Json) (i : ℕ) : Except Refusal Unit := do
  let entry := element "deny_status" i
  ensure (code.int?.any fun n => 100 ≤ n && n ≤ 599)
    (badRequest s!"{entry} is not a valid HTTP status")
  ensure (!code.int?.any fun n => 200 ≤ n && n < 300)
    (badRequest s!"{entry} cannot be a success status")

/-- The loop over `deny_status`. -/
def checkDenyStatus (spec : Json) : Except Refusal Unit := do
  let codes ← eachOf (spec.field "deny_status")
  codes.zipIdx.forM fun p => checkDenyCode p.1 p.2

/-- `text in value` for a list. -/
def listed (text : String) : Json → Bool
  | .arr xs => xs.any fun x => (Json.str text).pyEq x
  | _ => false

def checkResource (spec : Json) (seen : List Text) : Except Refusal Unit := do
  let resource := spec.field "resource"
  ensure (resource == .null || resource.isObj) (badRequest "spec.resource must be an object")
  if resource.isObj then
    let owner := (resource.field "owner_identity").toStrOr ""
    ensure (owner.isEmpty || seen.contains owner.toList)
      (badRequest "resource.owner_identity does not match any identity")
    let requiredRole := (resource.field "required_role").toStrOr ""
    let roleHierarchy := (spec.field "role_hierarchy").orElse (.arr [])
    ensure roleHierarchy.arr?.isSome (badRequest "spec.role_hierarchy must be an array")
    ensure (requiredRole.isEmpty || listed requiredRole roleHierarchy)
      (badRequest "resource.required_role is not in role_hierarchy")

/-- Every entry of a capture has a name and a path. -/
def captures : Json → Bool
  | .obj fs => fs.all fun f => !(Text.strip f.1.toList).isEmpty &&
      f.2.str?.any fun v => !(Text.strip v.toList).isEmpty
  | _ => false

/-- The setup steps from a place on, after steps of these names. -/
def checkSteps (spec : Json) (seen : List Text) : ℕ → List Json → List String → Except Refusal Unit
  | _, [], _ => .ok ()
  | i, step :: steps, setupNames => do
    let entry := element "setup" i
    ensure step.isObj (badRequest s!"{entry} must be an object")
    let request := step.field "request"
    ensure (request.isObj && present (request.field "method") && present (request.field "url"))
      (badRequest s!"{entry} must have a request method and url")
    let asIdentity := (step.field "as").toStrOr ""
    ensure (asIdentity.isEmpty || seen.contains asIdentity.toList)
      (badRequest s!"{entry} runs as an unknown identity")
    let name := (step.field "name").toStrOr ""
    ensure (name.isEmpty || !setupNames.contains name)
      (badRequest s!"{entry} has a duplicate name")
    let method := methodOf request
    ensure (!(changes method && !mutating spec))
      (badRequest s!"{entry} uses {String.ofList method} and requires spec.mutating=true")
    ensure (captures ((step.field "capture").orElse (.obj [])))
      (badRequest s!"{entry} capture entries require a name and path")
    checkSteps spec seen (i + 1) steps (setupNames ++ [name])

/-- The loop over `setup`. -/
def checkSetup (spec : Json) (seen : List Text) : Except Refusal Unit := do
  let steps ← eachOf (spec.field "setup")
  checkSteps spec seen 0 steps []

/-- The checks before `expected_access`, with the identifiers they found. -/
def checkShape (spec : Json) : Except Refusal (List Text) := do
  ensure (spec.isObj && spec.truthy) (badRequest "spec must be a non-empty object")
  ensure ((compact spec).length ≤ maxSpecBytes) (badRequest "spec is too large")
  ensure (present (spec.field "id")) (badRequest "spec.id is required")
  let identities := (spec.field "identities").arr?.getD []
  ensure (!identities.isEmpty) (badRequest "spec.identities must be a non-empty array")
  let seen ← checkIdentities 0 identities []
  checkRequest spec
  return seen

/-- `_validate_spec`. -/
def validateSpec (spec : Json) : Except Refusal Json := do
  let seen ← checkShape spec
  checkExpectedAccess spec seen
  checkDenyStatus spec
  checkResource spec seen
  checkSetup spec seen
  rejectLiteralCredentials spec
  rejectEnvironmentReferences "spec" spec
  validatePreflight spec
  return spec

end VardrMap.TestCases
