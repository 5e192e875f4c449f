import VardrMap.Lib.Url
import VardrMap.Lib.Time

/-!
# The authorization and scope evaluator

The pure decision function: may this capability run against this target, for this
engagement, at this instant. Exclusions are tried before inclusions, and the first
failing gate gives the reason. Reading a port that consists of digits without decimal
value raises, as the interpreter's `int` does; every matching function carries that
exception.
-/
namespace VardrMap.Policy
open Lib

/-- The stable reason codes. -/
inductive Reason where
  | allowed
  | engagementNotActive
  | stopWorkActive
  | authorizationMissing
  | authorizationNotActive
  | outsideTestingWindow
  | capabilityProhibited
  | targetExcluded
  | targetOutOfScope
  | scopeAmbiguous
  deriving DecidableEq

/-- Engagement types that need no authorization record. -/
def selfAuthorizingTypes : List String := ["bug_bounty"]

def activeEngagementStatus : String := "active"
def activeAuthorizationStatus : String := "active"

/-- One in-scope or out-of-scope rule. -/
structure ScopeRule where
  value : Text
  kind : String
  excluded : Bool
  deriving DecidableEq

/-- The permission-to-test record, reduced to what the decision needs. -/
structure AuthorizationSnapshot where
  status : String
  windowStart : Option DateTime
  windowEnd : Option DateTime
  permittedCapabilities : List String

structure PolicyInput where
  engagementStatus : String
  engagementType : String
  target : Text
  capability : String
  now : DateTime
  stopWork : Bool
  authorization : Option AuthorizationSnapshot
  scopeRules : List ScopeRule

structure PolicyDecision where
  allowed : Bool
  reason : Reason
  detail : String
  deriving DecidableEq

/-- What a classified target is. -/
inductive TargetKind where
  | ip
  | domain
  deriving DecidableEq

variable [Unicode]

/-! ## Reading targets -/

/-- What stands between a scheme and the rest of a target. -/
def schemeSep : Text := "://".toList

/-- The part of a target after its scheme separator, if it has one. -/
def afterScheme (raw : Text) : Text :=
  match Text.cut schemeSep raw with
  | some (_, rest) => rest
  | none => raw

/-- The authority without credentials: the text up to the first `/`, cut at its first
`@`. -/
def hostPort (remainder : Text) : Text :=
  let authority := Text.before '/' remainder
  if authority.contains '@' then Text.after '@' authority else authority

/-- The host text: inside the brackets, or before the only colon. -/
def hostText (host : Text) : Option Text :=
  match host with
  | '[' :: rest => if rest.contains ']' then some (Text.before ']' rest) else none
  | _ => if host.count ':' == 1 then some (Text.before ':' host) else some host

/-- A hostname needs a dot and no blank; a text that reads as an address is one. -/
def classify (host : Text) : Option (TargetKind × Text) :=
  if host.isEmpty then none
  else if (Ip.address host).isSome then some (.ip, host)
  else if host.contains ' ' || !host.contains '.' then none
  else some (.domain, host)

/-- Reduce a target to a kind and a comparable form, `none` when it cannot be
classified. -/
def normalizeTarget (target : Text) : Option (TargetKind × Text) :=
  let raw := Text.strip target
  match hostText (hostPort (afterScheme raw)) with
  | some host => classify (Unicode.lower (host.rdropWhile (· == '.')))
  | none => none

/-- The port text of an authority without credentials, `none` when it has none. -/
def portText (authority : Text) : Option Text :=
  match authority with
  | '[' :: rest =>
    if rest.contains ']' && (Text.after ']' rest).head? == some ':' then
      some (Text.after ']' rest).tail
    else none
  | _ => if authority.count ':' == 1 then some (Text.after ':' authority) else none

/-- The port a scheme stands for. -/
def defaultPort (scheme : Text) : Option ℕ :=
  if scheme == "https".toList then some 443
  else if scheme == "http".toList then some 80
  else none

/-- The scheme and the port, the scheme's default when none is written. -/
def schemeAndPort (target : Text) : Except Exn (Text × Option ℕ) :=
  let raw := Text.strip target
  let scheme := match Text.cut schemeSep raw with
    | some (s, _) => Unicode.lower s
    | none => []
  match (portText (hostPort (afterScheme raw))).filter Text.allDigits with
  | some digits =>
    match Text.toInt? digits with
    | some n => .ok (scheme, some n)
    | none => .error .valueError
  | none => .ok (scheme, defaultPort scheme)

/-- The path of a target, without its query, trailing slashes and letter case. -/
def pathOf (target : Text) : Text :=
  let remainder := afterScheme target
  if remainder.contains '/' then
    '/' :: Unicode.lower ((Text.before '?' (Text.after '/' remainder)).rdropWhile (· == '/'))
  else []

/-- The target path is the rule path or a path segment beneath it. -/
def pathWithin (targetPath rulePath : Text) : Bool :=
  targetPath == rulePath ||
    (if ['/'].isSuffixOf rulePath then rulePath else rulePath ++ ['/']).isPrefixOf targetPath

/-! ## Matching rules -/

/-- A rule value as a host pattern. -/
def hostPattern (ruleValue : Text) : Text :=
  Unicode.lower ((Text.strip ruleValue).rdropWhile (· == '.'))

/-- Domain rule matching: subdomains need an explicit wildcard. -/
def hostMatches (ruleValue host : Text) : Bool :=
  match hostPattern ruleValue with
  | [] => false
  | '*' :: '.' :: apex => ('.' :: apex).isSuffixOf host
  | '*' :: suffix => host == suffix || ('.' :: suffix).isSuffixOf host
  | rule => host == rule

/-- Exclusion matching covers subdomains without a wildcard. -/
def excludesHost (ruleValue host : Text) : Bool :=
  match hostPattern ruleValue with
  | [] => false
  | '*' :: '.' :: apex => ('.' :: apex).isSuffixOf host
  | '*' :: suffix => host == suffix || ('.' :: suffix).isSuffixOf host
  | rule => host == rule || ('.' :: rule).isSuffixOf host

/-- The rule value as every comparison reads it. -/
def ScopeRule.text (rule : ScopeRule) : Text := Unicode.lower (Text.strip rule.value)

/-- A `cidr` rule holds the target when that is an address of the network. -/
def cidrMatches (ruleValue : Text) (kind : TargetKind) (value : Text) : Bool :=
  match kind, Ip.address value, Ip.network ruleValue with
  | .ip, some addr, some net => Ip.contains net addr
  | _, _, _ => false

/-- A `url` or `api` rule: host, scheme, port and path, each compared only when the
rule's own value gives one. -/
def urlMatches (ruleValue value rawTarget : Text) : Except Exn Bool := do
  if (normalizeTarget ruleValue).any fun p => p.2 != value then
    return false
  let (ruleScheme, rulePort) ← schemeAndPort ruleValue
  let (targetScheme, targetPort) ← schemeAndPort rawTarget
  if !ruleScheme.isEmpty && ruleScheme != targetScheme then
    return false
  if rulePort.isSome && rulePort != targetPort then
    return false
  let rulePath := pathOf ruleValue
  if rulePath.isEmpty then
    return true
  return pathWithin (pathOf rawTarget) rulePath

/-- Does the rule hold for the classified target. -/
def ruleMatches (rule : ScopeRule) (kind : TargetKind) (value rawTarget : Text) :
    Except Exn Bool :=
  let ruleValue := rule.text
  if ruleValue.isEmpty then .ok false
  else if rule.kind == "cidr" then .ok (cidrMatches ruleValue kind value)
  else if rule.kind == "url" || rule.kind == "api" then urlMatches ruleValue value rawTarget
  else if kind == .ip then .ok (ruleValue == value)
  else if rule.excluded then .ok (excludesHost ruleValue value)
  else .ok (hostMatches ruleValue value)

/-! ## The decision -/

def deny (reason : Reason) (detail : String) : PolicyDecision := ⟨false, reason, detail⟩

/-- The first rule of the given polarity that matches. -/
def firstMatch (excluded : Bool) (kind : TargetKind) (value target : Text) :
    List ScopeRule → Except Exn (Option ScopeRule)
  | [] => .ok none
  | rule :: rules => do
    if rule.excluded == excluded then
      if ← ruleMatches rule kind value target then
        return some rule
    firstMatch excluded kind value target rules

/-- The gates of an authorization record: status, testing window, capability. -/
def evaluateAuthorization (auth : AuthorizationSnapshot) (capability : String) (now : DateTime) :
    PolicyDecision :=
  if auth.status != activeAuthorizationStatus then
    deny .authorizationNotActive s!"Authorization status is '{auth.status}', not 'active'."
  else if auth.windowStart.any fun start => now.instant < start.instant then
    deny .outsideTestingWindow "The testing window has not opened yet."
  else if auth.windowEnd.any fun stop => stop.instant < now.instant then
    deny .outsideTestingWindow "The testing window has closed."
  else if !auth.permittedCapabilities.isEmpty && !auth.permittedCapabilities.contains capability then
    deny .capabilityProhibited
      s!"Capability '{capability}' is not permitted by this authorization."
  else ⟨true, .allowed, "Engagement-level checks passed."⟩

/-- The gates that do not depend on a target. -/
def evaluateEngagement (candidate : PolicyInput) : PolicyDecision :=
  if candidate.stopWork then
    deny .stopWorkActive "Stop-work is engaged for this engagement."
  else if candidate.engagementStatus != activeEngagementStatus then
    deny .engagementNotActive
      s!"Engagement status is '{candidate.engagementStatus}', not 'active'."
  else
    match candidate.authorization with
    | none =>
      if selfAuthorizingTypes.contains candidate.engagementType then
        ⟨true, .allowed, "Engagement-level checks passed."⟩
      else
        deny .authorizationMissing
          s!"A '{candidate.engagementType}' engagement requires an authorization record."
    | some auth => evaluateAuthorization auth candidate.capability candidate.now

/-- The scope part of the decision: exclusions first and unconditionally. -/
def evaluateScope (candidate : PolicyInput) (kind : TargetKind) (value : Text) :
    Except Exn PolicyDecision := do
  match ← firstMatch true kind value candidate.target candidate.scopeRules with
  | some rule =>
    return deny .targetExcluded s!"Target matches exclusion '{String.ofList rule.value}'."
  | none =>
    match ← firstMatch false kind value candidate.target candidate.scopeRules with
    | some rule =>
      return ⟨true, .allowed, s!"Target matches in-scope rule '{String.ofList rule.value}'."⟩
    | none => return deny .targetOutOfScope "No in-scope rule matches this target."

/-- Decide whether execution may proceed against the candidate's target. -/
def evaluate (candidate : PolicyInput) : Except Exn PolicyDecision :=
  let gate := evaluateEngagement candidate
  if !gate.allowed then .ok gate
  else
    match normalizeTarget candidate.target with
    | none =>
      .ok (deny .scopeAmbiguous
        s!"Target '{String.ofList candidate.target}' could not be resolved to a host, IP, or URL.")
    | some (kind, value) => evaluateScope candidate kind value

/-- Decide for the first target that is not allowed, if any. -/
def evaluateTargets (candidate : PolicyInput) : List Text → Except Exn PolicyDecision
  | [] => .ok ⟨true, .allowed, "All targets are in scope."⟩
  | target :: targets => do
    let decision ← evaluate { candidate with target }
    if decision.allowed then evaluateTargets candidate targets else return decision

/-- Allow only if the gates pass and every target is in scope. -/
def evaluateAll (candidate : PolicyInput) (targets : List Text) : Except Exn PolicyDecision :=
  let gate := evaluateEngagement candidate
  if !gate.allowed then .ok gate else evaluateTargets candidate targets

end VardrMap.Policy
