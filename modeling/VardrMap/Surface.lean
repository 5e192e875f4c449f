import VardrMap.Deliverables
import VardrMap.Imports
import VardrMap.Lib.Upsert

/-!
# The attack surface

Imported rows, services and findings are observations of hosts, and each is linked to the node of
its host in the asset graph of its engagement. A finding has a history: what it was, without
secrets, when it was written and whenever somebody changed it or worked on it.
-/
namespace VardrMap.Surface
open Lib Assets Parsers Imports Deliverables

/-! ## The tables -/

structure Service where
  id : String
  programId : String
  ownerGithubId : String
  host : Text
  port : ℕ
  protocol : String
  serviceName : String
  product : String
  version : String
  state : String
  source : String
  assetId : Option String
  lastScannedAt : Instant

/-- What services are looked up by. -/
def Service.key (s : Service) : String × Text × ℕ × String :=
  (s.programId, s.host, s.port, s.protocol)

/-- A directed edge of the asset graph. -/
structure AssetRelationship where
  programId : String
  srcAssetId : String
  dstAssetId : String
  relationship : String
  source : String
  confidence : String
  firstSeenAt : Instant
  lastSeenAt : Instant

/-- What edges are looked up by. -/
def AssetRelationship.key (e : AssetRelationship) : String × String × String :=
  (e.srcAssetId, e.dstAssetId, e.relationship)

/-- A finding with its node. -/
structure TrackedFinding extends Finding where
  assetId : Option String

instance : Keyed TrackedFinding String := ⟨fun f => f.id⟩

/-- An entry of the history of a finding. -/
structure HistoryEntry extends FindingActivity where
  actor : String
  snapshot : Json
  evidence : List Json

/-- The tables, and how many nodes went with the engagements that were deleted. -/
structure Tables where
  rows : Store
  services : List Service
  edges : List AssetRelationship
  findings : Table TrackedFinding
  history : List HistoryEntry
  gone : ℕ

def Tables.empty : Tables := ⟨⟨[], [], []⟩, [], [], .empty, [], 0⟩

/-- Who asks, what the rest of the database is then, and what a request draws besides: the time
and new identifiers. -/
structure Visit where
  db : Db
  user : User
  evidence : List ReportedEvidence
  now : Instant
  wall : DateTime
  uuid : ℕ → String

/-- `value or default` of a text. -/
def orDefault (value : Option String) (default : String) : String :=
  (value.filter fun s => !s.isEmpty).getD default

/-- `provenance.require_job`. -/
def requireJob (db : Db) (programId : String) (jobId : Option String) : Except Refusal Unit :=
  match jobId.filter fun id => !id.isEmpty with
  | none => .ok ()
  | some id => ensure ((db.jobs.get? id).any fun j => j.programId == programId)
    (.http 404 "Job not found")

section
variable [Unicode] (newId : ℕ → String) (v : Visit) (programId : String)

/-! ## Imports -/

/-- What an import runs with. Every node that was ever added had an identifier of its own. -/
def Tables.context (jobId : Option String) (s : Tables) : Context :=
  ⟨programId, jobId, v.now, fun n => newId (s.gone + n)⟩

/-- `import_results`, for the objects of an accepted file. -/
def importFile [Sanitizer] (jobId : Option String) (tool : ToolType) (items : List Item)
    (s : Tables) : Except Refusal Tables := do
  let _ ← writableEngagement v.db programId v.user
  requireJob v.db programId jobId
  let imported ← raise (importResults (s.context newId v programId jobId) tool items s.rows)
  return { s with rows := imported.store }

/-! ## Services -/

/-- The protocols that are accepted. -/
inductive Protocol where
  | tcp
  | udp
  deriving DecidableEq

def Protocol.text : Protocol → String
  | tcp => "tcp"
  | udp => "udp"

/-- A service as it is posted. -/
structure ServiceIn where
  host : Text
  port : ℕ
  protocol : Protocol
  serviceName : Option String
  product : Option String
  version : Option String
  state : Option String
  source : Option String
  bounds : 1 ≤ port ∧ port ≤ 65535

namespace ServiceIn

def key (svc : ServiceIn) : String × Text × ℕ × String :=
  (programId, svc.host, svc.port, svc.protocol.text)

def sourceText (svc : ServiceIn) : String := orDefault svc.source "nmap"

/-- A stored service with what was posted. -/
def update (svc : ServiceIn) (assetId : Option String) (x : Service) : Service :=
  { x with
    serviceName := orDefault svc.serviceName ""
    product := orDefault svc.product ""
    version := orDefault svc.version ""
    state := orDefault svc.state "open"
    source := svc.sourceText
    lastScannedAt := v.now
    assetId }

/-- A new service. -/
def row (svc : ServiceIn) (id : String) (assetId : Option String) : Service where
  id
  programId
  ownerGithubId := v.user.githubId
  host := svc.host
  port := svc.port
  protocol := svc.protocol.text
  serviceName := orDefault svc.serviceName ""
  product := orDefault svc.product ""
  version := orDefault svc.version ""
  state := orDefault svc.state "open"
  source := svc.sourceText
  assetId
  lastScannedAt := v.now

/-- The node of a service, at a port or without one. -/
def node (svc : ServiceIn) (port : Option ℕ) (s : Tables) (assets : List Asset) :
    Except Exn (List Asset × Option String) :=
  upsert assets programId svc.host svc.sourceText "confirmed" port false v.now
    (newId (s.gone + assets.length))

end ServiceIn

/-- `relate`: the edge between two nodes, found or added, and seen now. No node is related to
itself. -/
def relate (edges : List AssetRelationship) (src dst relationship source : String) :
    List AssetRelationship :=
  let key := (src, dst, relationship)
  if src == dst then edges
  else if edges.any fun e => e.key == key then
    updateFirst AssetRelationship.key key (fun e => { e with lastSeenAt := v.now }) edges
  else edges ++ [⟨programId, src, dst, relationship, source, "confirmed", v.now, v.now⟩]

/-- The edge from the node of a host to that of a service on it. -/
def expose (edges : List AssetRelationship) (source : String) :
    Option String → Option String → List AssetRelationship
  | some host, some service => relate v programId edges host service "exposes" source
  | _, _ => edges

/-- One posted service: stored under its host, port and protocol. -/
def putService (s : Tables) (svc : ServiceIn) : Except Refusal Tables :=
  match s.services.find? fun x => x.key == svc.key programId with
  | some existing =>
    if existing.assetId.isSome then
      .ok { s with services :=
        updateFirst Service.key existing.key (svc.update v existing.assetId) s.services }
    else do
      let (assets, assetId) ← raise (svc.node newId v programId (some svc.port) s s.rows.assets)
      return { s with
        rows := { s.rows with assets }
        services := updateFirst Service.key existing.key (svc.update v assetId) s.services }
  | none => do
    let (assets, host) ← raise (svc.node newId v programId none s s.rows.assets)
    let (assets, service) ← raise (svc.node newId v programId (some svc.port) s assets)
    return { s with
      rows := { s.rows with assets }
      services := s.services ++ [svc.row v programId (v.uuid s.services.length) service]
      edges := expose v programId s.edges svc.sourceText host service }

/-- `bulk_create_services`. -/
def bulkCreateServices (services : List ServiceIn) (jobId : Option String) (s : Tables) :
    Except Refusal Tables := do
  let _ ← writableEngagement v.db programId v.user
  requireJob v.db programId jobId
  services.foldlM (putService newId v programId) s

/-- `delete_service`. -/
def deleteService (serviceId : String) (s : Tables) : Except Refusal Tables := do
  requireFullScope v.user
  let _ ← writableEngagement v.db programId v.user
  let mine (x : Service) : Bool := x.id == serviceId && x.programId == programId
  ensure (s.services.any mine) (.http 404 "Service not found")
  return { s with services := s.services.eraseP mine }

/-! ## Findings -/

variable [WordTable]

/-- `finding_history.record`. -/
def record (f : TrackedFinding) (id kind notes : String) (outcome : Option String)
    (evidence : List Json) : HistoryEntry where
  id
  programId := f.programId
  findingId := f.id
  kind
  outcome
  notes := redact notes
  createdAt := v.wall
  actor := v.user.githubId
  snapshot := cleanTree (serializeFinding f.toFinding)
  evidence

/-- `capture_baseline`: the first entry of a finding that has none. -/
def captureBaseline (f : TrackedFinding) (history : List HistoryEntry) : List HistoryEntry :=
  if history.any fun e => e.findingId == f.id then history
  else history ++ [record v f (v.uuid 1) "baseline" "State when history tracking began." none []]

/-- `_link_asset`. -/
def linkFinding (f : TrackedFinding) (s : Tables) : Except Exn (List Asset × TrackedFinding) :=
  if (orDefault f.asset "").isEmpty || f.assetId.isSome then .ok (s.rows.assets, f)
  else do
    let (assets, assetId) ← upsert s.rows.assets programId (orDefault f.asset "").toList "finding"
      "confirmed" none true v.now (newId (s.gone + s.rows.assets.length))
    return (assets, { f with assetId })

structure FindingCreate where
  title : String
  severity : String
  asset : Option String
  status : String
  summary : Option String
  steps : Option String
  impact : Option String
  remediation : Option String

/-- A new finding. -/
def FindingCreate.row (p : FindingCreate) : TrackedFinding where
  id := v.uuid 0
  programId
  title := p.title
  severity := some p.severity
  asset := some (orDefault p.asset "")
  status := some p.status
  summary := some (orDefault p.summary "")
  steps := some (orDefault p.steps "")
  impact := some (orDefault p.impact "")
  remediation := some (orDefault p.remediation "")
  createdAt := some v.wall
  assetId := none

/-- `add_finding`. -/
def addFinding (p : FindingCreate) (s : Tables) : Except Refusal Tables := do
  let _ ← writableEngagement v.db programId v.user
  let (assets, finding) ← raise (linkFinding newId v programId (p.row v programId) s)
  let findings ← found (s.findings.insert finding) .integrity
  return { s with
    rows := { s.rows with assets }
    findings
    history := s.history ++ [record v finding (v.uuid 2) "created" "" none []] }

/-- The fields of an update, each set to a text, set to nothing, or not sent. -/
structure FindingUpdate where
  title : Option (Option String)
  severity : Option (Option String)
  asset : Option (Option String)
  status : Option (Option String)
  summary : Option (Option String)
  steps : Option (Option String)
  impact : Option (Option String)
  remediation : Option (Option String)

/-- A finding with the fields that were sent. A new asset unlinks it. -/
def FindingUpdate.amend (u : FindingUpdate) (title : String) (f : TrackedFinding) :
    TrackedFinding :=
  { f with
    title
    severity := u.severity.getD f.severity
    asset := u.asset.getD f.asset
    status := u.status.getD f.status
    summary := u.summary.getD f.summary
    steps := u.steps.getD f.steps
    impact := u.impact.getD f.impact
    remediation := u.remediation.getD f.remediation
    assetId := if u.asset.isSome then none else f.assetId }

/-- A finding of the engagement. -/
def findFinding (findingId : String) (s : Tables) : Except Refusal TrackedFinding :=
  found ((s.findings.get? findingId).filter fun f => f.programId == programId)
    (.http 404 "Finding not found")

/-- `_link_asset` after an update: only when the asset was sent. -/
def relinkFinding (u : FindingUpdate) (f : TrackedFinding) (s : Tables) :
    Except Exn (List Asset × TrackedFinding) :=
  if u.asset.isSome then linkFinding newId v programId f s else .ok (s.rows.assets, f)

/-- `update_finding`. -/
def updateFinding (findingId : String) (u : FindingUpdate) (s : Tables) :
    Except Refusal Tables := do
  let _ ← writableEngagement v.db programId v.user
  let finding ← findFinding programId findingId s
  let history := captureBaseline v finding s.history
  -- no finding is stored without a title
  let title ← found (u.title.getD (some finding.title)) .integrity
  let (assets, finding) ← raise (relinkFinding newId v programId u (u.amend title finding) s)
  return { s with
    rows := { s.rows with assets }
    findings := s.findings.put finding
    history := history ++ [record v finding (v.uuid 2) "updated" "" none []] }

/-- `delete_finding`. -/
def deleteFinding (findingId : String) (s : Tables) : Except Refusal Tables := do
  let _ ← writableEngagement v.db programId v.user
  let finding ← findFinding programId findingId s
  return { s with
    findings := s.findings.filter fun f => f.id != finding.id
    history := s.history.filter fun e => e.findingId != finding.id }

/-! ## Work on a finding -/

inductive ActivityKind where
  | remediation
  | retest
  deriving DecidableEq

def ActivityKind.text : ActivityKind → String
  | remediation => "remediation"
  | retest => "retest"

structure ActivityCreate where
  kind : ActivityKind
  notes : Text
  outcome : Option String
  evidenceIds : List String

/-- What stays of a piece of evidence in the history. -/
def reference (e : ReportedEvidence) : Json :=
  .obj [("id", .str e.id), ("title", nullable e.title), ("content_hash", .str e.contentHash),
    ("job_id", nullable e.jobId), ("case_id", nullable e.caseId), ("case_ref", nullable e.caseRef),
    ("identity_id", nullable e.identityId), ("observed_outcome", nullable e.observedOutcome),
    ("expected_decision", nullable e.expectedDecision)]

/-- `add_activity`. -/
def addActivity [Sanitizer] (findingId : String) (body : ActivityCreate) (s : Tables) :
    Except Refusal Tables := do
  let _ ← writableEngagement v.db programId v.user
  let finding ← findFinding programId findingId s
  ensure ((body.kind == .retest) == body.outcome.isSome)
    (.http 400 "A retest requires an outcome; remediation notes do not take one")
  let notes := Text.strip (stripText body.notes)
  ensure (!notes.isEmpty) (.http 400 "Notes are required")
  let ids := body.evidenceIds.dedup
  let evidence := v.evidence.filter fun e =>
    e.programId == programId && e.findingId == some findingId && ids.contains e.id
  ensure (evidence.length == ids.length) (.http 404 "Evidence not found on this finding")
  let history := captureBaseline v finding s.history
  return { s with
    history := history ++ [record v finding (v.uuid 2) body.kind.text (String.ofList notes)
      body.outcome (evidence.map reference)] }

end

/-! ## Runs -/

/-- The deletion of an engagement takes its rows along. -/
def dropEngagement (id : String) (s : Tables) : Tables where
  rows := {
    recon := s.rows.recon.filter fun x => x.row.programId != id
    scan := s.rows.scan.filter fun x => x.row.programId != id
    assets := s.rows.assets.filter fun a => a.programId != id }
  services := s.services.filter fun x => x.programId != id
  edges := s.edges.filter fun e => e.programId != id
  findings := s.findings.filter fun f => f.programId != id
  history := s.history.filter fun e => e.programId != id
  gone := s.gone + s.rows.assets.countP fun a => a.programId == id

/-- What comes to the tables. -/
inductive Input where
  | importFile (v : Visit) (programId : String) (jobId : Option String) (tool : ToolType)
      (items : List Item)
  | createServices (v : Visit) (programId : String) (services : List ServiceIn)
      (jobId : Option String)
  | deleteService (v : Visit) (programId serviceId : String)
  | addFinding (v : Visit) (programId : String) (p : FindingCreate)
  | updateFinding (v : Visit) (programId findingId : String) (u : FindingUpdate)
  | deleteFinding (v : Visit) (programId findingId : String)
  | addActivity (v : Visit) (programId findingId : String) (body : ActivityCreate)
  | dropEngagement (id : String)

section
variable [Unicode] [WordTable] [Sanitizer] (newId : ℕ → String)

/-- A request, or its refusal. -/
def Input.run (i : Input) (s : Tables) : Except Refusal Tables :=
  match i with
  | .importFile v programId jobId tool items =>
    Surface.importFile newId v programId jobId tool items s
  | .createServices v programId services jobId =>
    bulkCreateServices newId v programId services jobId s
  | .deleteService v programId serviceId => Surface.deleteService v programId serviceId s
  | .addFinding v programId p => Surface.addFinding newId v programId p s
  | .updateFinding v programId findingId u => Surface.updateFinding newId v programId findingId u s
  | .deleteFinding v programId findingId => Surface.deleteFinding v programId findingId s
  | .addActivity v programId findingId body => Surface.addActivity v programId findingId body s
  | .dropEngagement id => .ok (Surface.dropEngagement id s)

/-- One input: what it stores, and nothing when it is refused. -/
def step (s : Tables) (i : Input) : Tables := ((i.run newId s).toOption).getD s

def after (inputs : List Input) (s : Tables) : Tables := inputs.foldl (step newId) s

end

end VardrMap.Surface
