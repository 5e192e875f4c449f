import VardrMap.Deps
import VardrMap.Lib.Upsert
import VardrMap.Lib.Url

/-!
# The radar

The programs that the platforms list in public. A refresh fetches the list of each platform, updates
the stored program of the caller under each platform identifier and adds one where there is none.
The session of a request is created without autoflush, so a lookup sees what is stored and not what
the request has added; nothing in the table keeps two programs from the same platform identifier.
-/
namespace VardrMap.Radar
open Lib

/-! ## What is stored -/

structure RadarProgram where
  id : String
  ownerGithubId : String
  platform : String
  platformId : String
  name : String
  url : String
  maxPayout : Json
  isNew : String
  discoveredAt : Instant
  lastFetchedAt : Instant
  deriving DecidableEq

instance : Keyed RadarProgram String := ⟨RadarProgram.id⟩

/-- What a program is looked up by. -/
def RadarProgram.key (r : RadarProgram) : String × String × String :=
  (r.ownerGithubId, r.platform, r.platformId)

structure Stored where
  db : Db
  programs : Table RadarProgram

/-- A program that its owner has seen. -/
def RadarProgram.seen (r : RadarProgram) : RadarProgram :=
  if r.isNew == "1" then { r with isNew := "0" } else r

/-- `serialize_radar`. -/
structure Listed where
  id : String
  platform : String
  platformId : String
  name : String
  url : String
  maxPayout : Json
  isNew : Bool
  discoveredAt : Instant
  lastFetchedAt : Instant

def RadarProgram.serialize (r : RadarProgram) : Listed where
  id := r.id
  platform := r.platform
  platformId := r.platformId
  name := r.name
  url := r.url
  maxPayout := r.maxPayout
  isNew := r.isNew == "1"
  discoveredAt := r.discoveredAt
  lastFetchedAt := r.lastFetchedAt

/-! ## What the platforms list -/

/-- `_SOURCES`. -/
def sources : List (String × String) := [
  ("bugcrowd", "https://bugcrowd.com/programs.json"),
  ("hackerone", "https://hackerone.com/programs.json")]

/-- A listed program. -/
structure Entry where
  platformId : String
  name : String
  url : String
  maxPayout : Json
  deriving DecidableEq

/-- `_URL_BAD_CHARS_RE`. -/
def urlBadChar (c : Char) : Bool := c.toNat ≤ 32 || (127 ≤ c.toNat && c.toNat ≤ 159)

section
variable [Unicode]

/-- `validate_safe_url`. -/
def validateSafeUrl (value : Json) : Except Exn Text :=
  if !value.truthy then .ok []
  else match value with
    | .str s =>
      let cleaned := Text.strip (s.toList.filter fun c => c != Char.ofNat 0)
      if cleaned.isEmpty then .ok []
      else if cleaned.any urlBadChar then .error .valueError
      else do
        let parsed ← Url.urlsplit cleaned
        if !(["http".toList, "https".toList].contains (Unicode.lower parsed.scheme)) then
          .error .valueError
        else if parsed.netloc.isEmpty then .error .valueError
        else .ok cleaned
    | _ => .error .attributeError

/-- `_safe_radar_url`. -/
def safeRadarUrl (raw : Json) (fallback : Text) : Except Exn Text :=
  match validateSafeUrl raw with
  | .ok url => .ok (if url.isEmpty then fallback else url)
  | .error .valueError => .ok fallback
  | .error e => .error e

/-- The programs of a response: the list itself, or the list under `programs`. -/
def programsOf (data : Json) : Except Exn (List Json) :=
  match data with
  | .arr programs => .ok programs
  | _ => do (← data.getD "programs" (.arr [])).iter

/-- The entry of a program by its identifier and name, with the dictionary that has the rest. -/
def entryOf (code name attrs : Json) (site urlField payout payout' : String) :
    Except Exn Entry := do
  let url ← safeRadarUrl (← attrs.get urlField) (site.toList ++ code.toStr.toList)
  return {
    platformId := code.toStr
    name := String.ofList (name.toStr.toList.take 300)
    url := String.ofList url
    maxPayout := (← attrs.get payout).orElse (← attrs.get payout') }

/-- The identifier and the name of a program, unless it has none. -/
def named (p : Json) (field field' : String) : Except Exn (Option (Json × Json)) := do
  let code := ((← p.get field).orElse (← p.get field')).orElse (.str "")
  let name := (← p.get "name").orElse code
  return if code.truthy && name.truthy then some (code, name) else none

/-- The loop of `_parse_bugcrowd`, for one program. -/
def bugcrowdEntry (p : Json) : Except Exn (Option Entry) := do
  match ← named p "code" "handle" with
  | none => return none
  | some (code, name) =>
    some <$> entryOf code name p "https://bugcrowd.com/" "program_url" "max_payout" "maximum_payout"

/-- The loop of `_parse_hackerone`, for one program. -/
def hackeroneEntry (p : Json) : Except Exn (Option Entry) := do
  match ← named p "handle" "code" with
  | none => return none
  | some (handle, name) =>
    let attrs := (← p.get "attributes").orElse p
    some <$> entryOf handle name attrs "https://hackerone.com/" "url" "maximum_bounty" "max_payout"

/-- `_parse_bugcrowd`. -/
def parseBugcrowd (data : Json) : Except Exn (List Entry) := do
  return (← (← programsOf data).mapM bugcrowdEntry).reduceOption

/-- `_parse_hackerone`. -/
def parseHackerone (data : Json) : Except Exn (List Entry) := do
  return (← (← programsOf data).mapM hackeroneEntry).reduceOption

/-- `_PARSERS`. -/
def parsers : List (String × (Json → Except Exn (List Entry))) :=
  [("bugcrowd", parseBugcrowd), ("hackerone", parseHackerone)]

/-- A failed fetch: an error of the client, or any other. -/
inductive FetchError where
  | http (exc : String)
  | other (exc : String)

/-- What a refresh draws on: the responses, identifiers for new rows, the time, and the rows that
the columns take. -/
structure Feed where
  get : String → Except FetchError Json
  newId : ℕ → String
  now : Instant
  accepts : RadarProgram → Bool

/-- `_fetch_platform`. -/
def fetchPlatform (feed : Feed) (platform : String) : Except Refusal (List Entry) := do
  let url ← found (sources.lookup platform) (.raised .keyError)
  match feed.get url with
  | .error (.http exc) => .error (.http 502 s!"Failed to fetch {platform}: {exc}")
  | .error (.other exc) => .error (.http 502 s!"Error fetching {platform}: {exc}")
  | .ok data =>
    let parse ← found (parsers.lookup platform) (.raised .keyError)
    raise (parse data)

end

/-! ## The refresh -/

/-- What an entry does to the programs of an owner on a platform. -/
def Entry.upsert (owner plat : String) (now : Instant) (id : String) (entry : Entry) :
    Upsert RadarProgram.key where
  target := (owner, plat, entry.platformId)
  update existing := { existing with
    name := entry.name
    url := if entry.url.isEmpty then existing.url else entry.url
    maxPayout := entry.maxPayout
    lastFetchedAt := now }
  create := {
    id
    ownerGithubId := owner
    platform := plat
    platformId := entry.platformId
    name := entry.name
    url := entry.url
    maxPayout := entry.maxPayout
    isNew := "1"
    discoveredAt := now
    lastFetchedAt := now }
  key_update _ := rfl
  key_create := rfl

/-- The session of a refresh, and its totals. -/
structure Refresh where
  rows : Pending RadarProgram
  totalNew : ℕ
  totalUpdated : ℕ

/-- One entry: the stored program is updated, or one is added. -/
def storeEntry (feed : Feed) (owner plat : String) (s : Refresh) (entry : Entry) : Refresh :=
  let u := entry.upsert owner plat feed.now (feed.newId s.totalNew)
  if s.rows.finds RadarProgram.key u.target then
    { s with rows := s.rows.upsert u, totalUpdated := s.totalUpdated + 1 }
  else { s with rows := s.rows.upsert u, totalNew := s.totalNew + 1 }

/-- The rows are written: those that the session has changed or added must fit their columns. -/
def commit (feed : Feed) (stored : Table RadarProgram) (s : Pending RadarProgram) :
    Except Refusal (Table RadarProgram) :=
  if (s.rows.filter fun r => !stored.rows.contains r).all feed.accepts then
    if h : (s.rows.map Keyed.key).Nodup then .ok ⟨s.rows, h⟩ else .error .integrity
  else .error (.http 500 "Internal Server Error")

/-- The platforms to refresh: the one asked for, or all. -/
def requested (platform : Option String) : List String :=
  match platform with
  | some p => if p.isEmpty then sources.map Prod.fst else [p]
  | none => sources.map Prod.fst

structure RefreshResponse where
  new : ℕ
  updated : ℕ
  platforms : List String

variable [Unicode]

def storePlatform (feed : Feed) (owner : String) (s : Refresh) (plat : String) :
    Except Refusal Refresh := do
  let entries ← fetchPlatform feed plat
  return entries.foldl (storeEntry feed owner plat) s

/-- `refresh_radar`. -/
def refreshRadar (identity : Identity) (feed : Feed) (request : HttpRequest)
    (platform : Option String) (s : Stored) : Except Refusal (Stored × RefreshResponse) := do
  let user ← getCurrentUser identity s.db request
  let platforms := requested platform
  platforms.forM fun p => ensure (sources.lookup p).isSome
    (.http 400 s!"Unknown platform '{p}'. Use: ['bugcrowd', 'hackerone']")
  let session ← platforms.foldlM (storePlatform feed user.githubId) ⟨⟨s.programs.rows, []⟩, 0, 0⟩
  let programs ← commit feed s.programs session.rows
  return ({ s with programs }, ⟨session.totalNew, session.totalUpdated, platforms⟩)

/-! ## The list -/

/-- The programs that a caller asks for: those of a platform, or all. -/
def RadarProgram.askedBy (r : RadarProgram) (owner : String) (platform : Option String) : Bool :=
  r.ownerGithubId == owner && platform.all fun p => p.isEmpty || r.platform == p

omit [Unicode] in
theorem seen_id (r : RadarProgram) : r.seen.id = r.id := by
  rw [RadarProgram.seen]
  split <;> rfl

/-- The programs that a caller is shown are seen. -/
def RadarProgram.show (owner : String) (platform : Option String) (r : RadarProgram) :
    RadarProgram :=
  if r.askedBy owner platform then r.seen else r

omit [Unicode] in
theorem show_id (owner : String) (platform : Option String) (r : RadarProgram) :
    Keyed.key (r.show owner platform) = Keyed.key r := by
  rw [RadarProgram.show]
  split
  · exact seen_id r
  · rfl

structure RadarListing where
  programs : List Listed
  total : ℕ
  newCount : ℕ

/-- `list_radar`: the newest programs first. -/
def listRadar (identity : Identity) (request : HttpRequest) (platform : Option String)
    (s : Stored) : Except Refusal (Stored × RadarListing) := do
  let user ← getCurrentUser identity s.db request
  let rows := (s.programs.rows.filter fun r => r.askedBy user.githubId platform).mergeSort
    fun a b => b.discoveredAt ≤ a.discoveredAt
  let result := rows.map RadarProgram.serialize
  let programs := s.programs.map (RadarProgram.show user.githubId platform)
    (show_id user.githubId platform)
  return ({ s with programs }, ⟨result, result.length, result.countP Listed.isNew⟩)

end VardrMap.Radar
