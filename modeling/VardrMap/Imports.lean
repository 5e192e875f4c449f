import VardrMap.Assets
import VardrMap.Parsers
import VardrMap.Lib.Dict

/-!
# Importing tool output

Parsed rows are compared with the stored ones of their source by a key of their own, stored
when they are new, and linked to the asset graph. The httpx importer writes into the stored
row of the same host instead. Everything is committed at once; what follows the commit only
notifies.
-/
namespace VardrMap.Imports
open Lib Assets Parsers

/-- The tools whose output is imported. -/
inductive ToolType where
  | ffuf
  | httpx
  | nuclei
  | katana
  | gau
  | dalfox
  deriving DecidableEq

def ToolType.text : ToolType → String
  | ffuf => "ffuf"
  | httpx => "httpx"
  | nuclei => "nuclei"
  | katana => "katana"
  | gau => "gau"
  | dalfox => "dalfox"

/-- A stored row, with what the import adds to the parsed one. -/
structure Stored (α : Type) where
  row : α
  assetId : Option String
  jobId : Option String
  firstSeenAt : Option Instant
  deriving DecidableEq

/-- The tables that an import writes: the rows of all sources, and the asset graph. -/
structure Store where
  recon : List (Stored ReconItem)
  scan : List (Stored ParsedScanItem)
  assets : List Asset
  deriving DecidableEq

/-- What an import runs with: the engagement, the job, the clock, and the identifiers of new
nodes by the number of nodes there are. -/
structure Context where
  programId : String
  jobId : Option String
  now : Instant
  assetId : ℕ → String

variable [Unicode]

/-! ## Linking -/

/-- What a row is linked by: its URL, else its host. -/
def reconObserved (r : ReconItem) : Text := if r.url.isEmpty then r.host else r.url

/-- What a row is linked by: its asset. -/
def scanObserved (s : ParsedScanItem) : Text := s.asset

/-- The node of an observed string, without its port. -/
def link (c : Context) (source : String) (assets : List Asset) (observed : Text) :
    Except Exn (List Asset × Option String) :=
  upsert assets c.programId observed source "confirmed" none true c.now (c.assetId assets.length)

/-- `_link_assets`: each row in turn. -/
def linkAssets {α : Type} (c : Context) (source : String) (observed : α → Text) :
    List Asset → List (Stored α) → Except Exn (List Asset × List (Stored α))
  | assets, [] => .ok (assets, [])
  | assets, s :: rows => do
    let (assets, id) ← link c source assets (observed s.row)
    let (assets, rows) ← linkAssets c source observed assets rows
    return (assets, { s with assetId := id.or s.assetId } :: rows)

/-! ## Rows that are already stored -/

/-- `_dedup_recon`: the rows whose URL, or else whose host, was not seen before; a row with
neither is always new. No URL of a stored row is null, so that only the hosts of this upload
count. -/
def dedupRecon (urls hosts : List Text) : List ReconItem → List ReconItem
  | [] => []
  | r :: rows =>
    if !r.url.isEmpty then
      if urls.contains r.url then dedupRecon urls hosts rows
      else r :: dedupRecon (r.url :: urls) hosts rows
    else if r.host.isEmpty then r :: dedupRecon urls hosts rows
    else if hosts.contains r.host then dedupRecon urls hosts rows
    else r :: dedupRecon urls (r.host :: hosts) rows

/-- The URLs stored for an engagement and source. -/
def storedUrls (s : Store) (programId source : String) : List Text :=
  (s.recon.filter fun x => x.row.programId == programId && x.row.source == source).map
    fun x => x.row.url

/-- The URL of a match without query and fragment. -/
def baseOf (matchedAt : Text) : Text :=
  if matchedAt.isEmpty then []
  else
    match Url.urlsplit matchedAt with
    | .ok parts => parts.scheme ++ "://".toList ++ parts.netloc ++ parts.path
    | .error _ => matchedAt

/-- `_dalfox_key`. -/
def dalfoxKey (s : ParsedScanItem) : Text × Text × Text := (baseOf s.matchedAt, s.templateId, s.type)

/-- `_dedup_scan_items`: the matches under a key that was not seen before. -/
def dedupScan (seen : List (Text × Text × Text)) : List ParsedScanItem → List ParsedScanItem
  | [] => []
  | s :: rows =>
    if seen.contains (dalfoxKey s) then dedupScan seen rows
    else s :: dedupScan (dalfoxKey s :: seen) rows

/-- The keys stored for an engagement and source. -/
def storedKeys (s : Store) (programId source : String) : List (Text × Text × Text) :=
  (s.scan.filter fun x => x.row.programId == programId && x.row.source == source).map
    fun x => dalfoxKey x.row

/-! ## The hosts of httpx -/

/-- `_host_of`. -/
def hostOf (value : Text) : Text :=
  let s := Unicode.lower (Text.strip value)
  let s := match Text.cut "://".toList s with
    | some (_, rest) => rest
    | none => s
  let s := Text.afterLast '@' (Text.before '/' s)
  match s with
  | '[' :: _ => Text.before ']' s ++ [']']
  | _ => Text.before ':' s

/-- The field that the key of a row is read from: its host, else its URL. -/
def keyField (r : ReconItem) : Text := if r.host.isEmpty then r.url else r.host

/-- The key of a row. -/
def hostKey (r : ReconItem) : Text := hostOf (keyField r)

/-- A field of a probe, kept when it is empty. -/
def enriched (stored value : Text) : Text := if value.isEmpty then stored else value

/-- The stored row with what a probe has found. -/
def enrich (stored item : ReconItem) : ReconItem :=
  { stored with
    url := enriched stored.url item.url
    host := enriched stored.host item.host
    title := enriched stored.title item.title
    webserver := enriched stored.webserver item.webserver
    port := enriched stored.port item.port
    tech := enriched stored.tech item.tech
    contentType := enriched stored.contentType item.contentType
    statusCode := if item.statusCode = .null then stored.statusCode else item.statusCode }

/-- The row that an uploaded one went into, by its position, and whether it was added for it. -/
structure Target where
  row : ℕ
  added : Bool
  deriving DecidableEq

/-- The rows, the graph, the position of the row of each host, and where the rows of the upload
went so far. -/
structure Probing where
  rows : List (Stored ReconItem)
  assets : List Asset
  byHost : Dict Text ℕ
  targets : List Target

/-- The stored rows of httpx by their host, the first of each. -/
def byHost (programId : String) : ℕ → List (Stored ReconItem) → Dict Text ℕ → Dict Text ℕ
  | _, [], d => d
  | n, x :: rows, d =>
    byHost programId (n + 1) rows
      (if x.row.programId == programId && x.row.source == "httpx" && !(hostKey x.row).isEmpty then
        d.setDefault (hostKey x.row) n
      else d)

/-- `_link_one`: a row that is linked already stays as it is. -/
def linkOne (c : Context) (assets : List Asset) (x : Stored ReconItem) :
    Except Exn (List Asset × Stored ReconItem) :=
  if x.assetId.isSome then .ok (assets, x)
  else do
    let (assets, id) ← link c "httpx" assets (reconObserved x.row)
    return (assets, { x with assetId := id })

/-- One row of the upload: into the row of its host, or stored as a new one. -/
def probe (c : Context) (p : Probing) (item : ReconItem) : Except Exn Probing :=
  let host := hostKey item
  match (if host.isEmpty then none else p.byHost host).bind fun n => (p.rows[n]?).map (n, ·) with
  | some (n, target) => do
    let (assets, target) ← linkOne c p.assets { target with row := enrich target.row item }
    return { p with rows := p.rows.set n target, assets, targets := p.targets ++ [⟨n, false⟩] }
  | none => .ok { p with
      rows := p.rows ++ [⟨item, none, c.jobId, some c.now⟩]
      byHost := if host.isEmpty then p.byHost else p.byHost.set host p.rows.length
      targets := p.targets ++ [⟨p.rows.length, true⟩] }

/-- All rows of the upload in turn. -/
def probeAll (c : Context) (items : List ReconItem) (s : Store) : Except Exn Probing :=
  items.foldlM (probe c) ⟨s.recon, s.assets, byHost c.programId 0 s.recon .empty, []⟩

/-- The links of the upload's rows at the end: a row that went into another is linked as well,
which leaves its node behind. -/
def linkProbed (c : Context) : List ReconItem → List Target → List (Stored ReconItem) →
    List Asset → Except Exn (List (Stored ReconItem) × List Asset)
  | item :: items, target :: targets, rows, assets =>
    if target.added then
      match rows[target.row]? with
      | some x => do
        let (assets, x) ← linkOne c assets x
        linkProbed c items targets (rows.set target.row x) assets
      | none => linkProbed c items targets rows assets
    else do
      let (assets, _) ← link c "httpx" assets (reconObserved item)
      linkProbed c items targets rows assets
  | _, _, rows, assets => .ok (rows, assets)

/-- `_upsert_recon_httpx`: the store, and how many rows were added. -/
def upsertReconHttpx (c : Context) (items : List ReconItem) (s : Store) :
    Except Exn (Store × ℕ) := do
  let p ← probeAll c items s
  let (recon, assets) ← linkProbed c items p.targets p.rows p.assets
  return ({ s with recon, assets }, (p.targets.filter Target.added).length)

/-! ## One import -/

/-- What an import has stored: how many rows it counted and added, and those to notify of. -/
structure Imported where
  store : Store
  importedCount : ℕ
  newCount : ℕ
  candidates : List ParsedScanItem

/-- A parsed row as it is added. -/
def fresh {α : Type} (c : Context) (row : α) : Stored α := ⟨row, none, c.jobId, some c.now⟩

/-- Rows of URL-shaped tools: those not seen yet are stored and linked. -/
def importRecon (c : Context) (source : String) (rows : List ReconItem) (s : Store) :
    Except Exn Imported := do
  let new := dedupRecon (storedUrls s c.programId source) [] rows
  let (assets, added) ← linkAssets c source reconObserved s.assets (new.map (fresh c))
  return ⟨{ s with recon := s.recon ++ added, assets }, new.length, new.length, []⟩

/-- Matches that are stored and linked. -/
def importScan (c : Context) (source : String) (new : List ParsedScanItem) (newCount : ℕ) (s : Store) :
    Except Exn Imported := do
  let (assets, added) ← linkAssets c source scanObserved s.assets (new.map (fresh c))
  return ⟨{ s with scan := s.scan ++ added, assets }, new.length, newCount, new⟩

variable [Sanitizer]

/-- `import_results` up to its commit, for the objects of an accepted file. -/
def importResults (c : Context) (tool : ToolType) (items : List Item) (s : Store) :
    Except Exn Imported :=
  match tool with
  | .ffuf => do
    let rows ← parseFfuf items c.programId
    importRecon c "ffuf" rows s
  | .katana => importRecon c "katana" (parseKatana items c.programId) s
  | .gau => importRecon c "gau" (parseGau items c.programId) s
  | .httpx => do
    let rows ← parseHttpx items c.programId
    let (store, newCount) ← upsertReconHttpx c rows s
    return ⟨store, rows.length, newCount, []⟩
  | .dalfox =>
    let new := dedupScan (storedKeys s c.programId "dalfox") (parseDalfox items c.programId)
    importScan c "dalfox" new new.length s
  | .nuclei => do
    let rows ← parseNuclei items c.programId
    importScan c "nuclei" rows 0 s

/-! ## After the commit -/

/-- The notification settings of a user. -/
structure Subscriber where
  webhookUrl : Option Text
  notifyMinSeverity : Option Text

/-- The webhook of a user, when one is set. -/
def Subscriber.webhook (u : Subscriber) : Option Text := u.webhookUrl.filter fun url => !url.isEmpty

/-- `user.notify_min_severity or "high"`. -/
def Subscriber.threshold (u : Subscriber) : Text :=
  (u.notifyMinSeverity.filter fun m => !m.isEmpty).getD "high".toList

omit [Sanitizer] in
/-- `severity_meets_threshold`: both are looked up in lower case. -/
def severityMeetsThreshold (severity minimum : Text) : Bool :=
  match severities.idxOf? (Unicode.lower severity), severities.idxOf? (Unicode.lower minimum) with
  | some sev, some floor => floor ≤ sev
  | _, _ => false

omit [Unicode] [Sanitizer] in
/-- `["info", ..., "critical"].index(severity)`: of the severity as it is stored. -/
def severityIndex (row : ParsedScanItem) : Except Exn ℕ :=
  match severities.idxOf? row.severity with
  | some n => .ok n
  | none => .error .valueError

omit [Unicode] [Sanitizer] in
/-- `max(rows, key=severityIndex)`: the first row of the highest index. -/
def topRow (rows : List ParsedScanItem) : Except Exn (Option ParsedScanItem) := do
  let indices ← rows.mapM severityIndex
  return ((rows.zip indices).foldl (fun top x =>
    match top with
    | some t => if t.2 < x.2 then some x else some t
    | none => some x) (none : Option (ParsedScanItem × ℕ))).map Prod.fst

/-- The message about new hosts. -/
def hostsMessage (count : ℕ) (name : Text) : Text :=
  "🔍 VardrMap: ".toList ++ (Nat.repr count).toList ++ " new host(s) discovered for ".toList ++ name

/-- The message about notable matches. -/
def matchesMessage (tool : ToolType) (count : ℕ) (threshold name : Text) (top : ParsedScanItem) :
    Text :=
  "🚨 VardrMap: ".toList ++ (Nat.repr count).toList ++ " ".toList ++ threshold ++ "+ ".toList ++
    (if tool = .dalfox then "candidate(s)" else "finding(s)").toList ++ " imported for ".toList ++
      name ++ " — top: [".toList ++ top.severity ++ "] ".toList ++
        (if top.title.isEmpty then top.templateId else top.title)

omit [Sanitizer] in
/-- What `import_results` does after its commit: the address and text of the notification that
it schedules, if any. -/
def afterCommit (tool : ToolType) (name : Text) (user : Option Subscriber) (imported : Imported) :
    Except Exn (Option (Text × Text)) :=
  match user.bind Subscriber.webhook, user with
  | some url, some u =>
    if tool = .httpx then
      .ok (if imported.newCount = 0 then none else some (url, hostsMessage imported.newCount name))
    else if (tool = .nuclei || tool = .dalfox) && imported.importedCount != 0 then do
      let notable := imported.candidates.filter fun row =>
        severityMeetsThreshold row.severity u.threshold
      let top ← topRow notable
      return top.map fun row => (url, matchesMessage tool notable.length u.threshold name row)
    else .ok none
  | _, _ => .ok none

end VardrMap.Imports
