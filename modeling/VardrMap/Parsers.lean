import VardrMap.Lib.Url
import VardrMap.Models

/-!
# Reading tool output

One parser for each tool, from the JSON objects of an upload to the rows of the engagement.
Fields come with any type: some are converted to text whatever they are, others are handed
to the sanitiser, which takes nothing but text.
-/
namespace VardrMap.Parsers
open Lib

/-- A JSON object of an upload. -/
abbrev Item := List (String × Json)

/-- `item.get(k)`. -/
def Item.get (item : Item) (k : String) : Json := (Json.obj item).field k

/-- The sanitiser: `nh3.clean` without allowed tags, after `&` was escaped, and `html.unescape`
of what it gives. -/
class Sanitizer where
  clean : Text → Text

structure ReconItem where
  programId : String
  source : String
  url : Text
  path : Text
  host : Text
  title : Text
  statusCode : Json
  webserver : Text
  port : Text
  tech : Text
  contentType : Text
  length : Json
  words : Json
  lines : Json
  deriving DecidableEq

/-- A row of a source with no more than its address. -/
def ReconItem.of (programId source : String) (url : Text) : ReconItem where
  programId
  source
  url
  path := []
  host := []
  title := []
  statusCode := .null
  webserver := []
  port := []
  tech := []
  contentType := []
  length := .null
  words := .null
  lines := .null

/-- A `ScanItem` as a parser builds it. -/
structure ParsedScanItem where
  programId : String
  source : String
  templateId : Text
  title : Text
  severity : Text
  asset : Text
  matchedAt : Text
  type : Text
  description : Text
  status : String
  cwe : Text
  cvss : Text
  detectionMethod : Text
  payload : Text
  matchEvidence : Text
  confidence : Text
  deriving DecidableEq

variable [Unicode]

/-! ## Conversions of one field -/

/-- `str(value or default)`. -/
def textOr (value : Json) (default : String) : Text := (value.toStrOr default).toList

/-- `_CONTROL`. -/
def isControl (c : Char) : Bool :=
  c.toNat ≤ 8 || c.toNat == 11 || c.toNat == 12 || (14 ≤ c.toNat && c.toNat ≤ 31) ||
    c.toNat == 127

/-- `_plain`. -/
def plain (value : Json) (limit : ℕ) : Text :=
  let text := if value = .null then [] else value.toStr.toList
  (text.filter fun c => !isControl c).take limit

/-- `<` and `>` percent-encoded. -/
def escapeAngle (c : Char) : Text :=
  if c == '<' then "%3C".toList else if c == '>' then "%3E".toList else [c]

/-- `_url_field`. -/
def urlField (value : Json) : Text := (Text.strip (plain value 8192)).flatMap escapeAngle

/-- `_http_url`. -/
def httpUrl (value : Json) : Text :=
  let text := Text.strip (plain value 2000)
  match Url.urlsplit text with
  | .ok parts =>
    if (parts.scheme == "http".toList || parts.scheme == "https".toList) && parts.hostname.isSome then
      text
    else []
  | .error _ => []

/-- `_web_url`: the URL, its host and its path. -/
def webUrl (raw : Json) : Option (Text × Text × Text) :=
  match raw with
  | .str s =>
    let url := Text.strip s.toList
    if url.isEmpty then none
    else
      match Url.urlsplit url with
      | .ok parts =>
        if parts.scheme == "http".toList || parts.scheme == "https".toList then
          parts.hostname.map fun host =>
            (url, host, if parts.path.isEmpty then ['/'] else parts.path)
        else none
      | .error _ => none
  | _ => none

/-- `_as_int`. -/
def asInt (value : Json) : Json := if value.int?.isSome then value else .null

/-- `s.replace(old, new)`, reading on after each replacement; `skip` characters are left of the
last one. -/
def replaceFrom (old new : Text) : ℕ → Text → Text
  | _, [] => []
  | skip + 1, _ :: l => replaceFrom old new skip l
  | 0, c :: l =>
    if old.isPrefixOf (c :: l) then new ++ replaceFrom old new (old.length - 1) l
    else c :: replaceFrom old new 0 l

/-- `",".join(texts)`. -/
def join (sep : Text) (texts : List Text) : Text := sep.intercalate texts

variable [Sanitizer]

/-- `strip_html` of a text. -/
def stripText (l : Text) : Text :=
  if l.isEmpty then [] else Text.strip (Sanitizer.clean (l.filter fun c => c != Char.ofNat 0))

/-- `strip_html`: whatever is false gives nothing, and nothing else but a text has the methods
that it calls. -/
def stripHtml (value : Json) : Except Exn Text :=
  if !value.truthy then .ok []
  else
    match value with
    | .str s => .ok (stripText s.toList)
    | _ => .error .attributeError

/-! ## The parsers -/

/-- The content type of a row, under either spelling of its name. -/
def contentTypeOf (item : Item) : Json :=
  (item.get "content-type").orElse (item.get "content_type")

/-- A row of `parse_ffuf`. -/
def parseFfufItem (programId : String) (item : Item) : Except Exn ReconItem := do
  let url ←
    if (item.get "url").truthy then .ok (item.get "url")
    else do
      let input ← (Json.obj item).getD "input" (.obj [])
      input.get "FUZZ"
  let input ← (Json.obj item).getD "input" (.obj [])
  let fuzz ← input.getD "FUZZ" (.str "")
  let contentType ← stripHtml (contentTypeOf item)
  return { ReconItem.of programId "ffuf" (urlField (url.orElse (.str ""))) with
    path := urlField fuzz
    statusCode := item.get "status"
    length := item.get "length"
    words := item.get "words"
    lines := item.get "lines"
    contentType }

/-- `parse_ffuf`. -/
def parseFfuf (items : List Item) (programId : String) : Except Exn (List ReconItem) :=
  items.mapM (parseFfufItem programId)

/-- The technologies of a row: a list is joined, anything else is one text. -/
def techOf (item : Item) : Text :=
  match (item.get "tech").orElse ((item.get "technologies").orElse (.arr [])) with
  | .arr xs => join [','] (xs.map fun x => x.toStr.toList)
  | value => textOr value ""

/-- A row of `parse_httpx`. -/
def parseHttpxItem (programId : String) (item : Item) : Except Exn ReconItem := do
  let title ← stripHtml (item.get "title")
  let webserver ← stripHtml (item.get "webserver")
  let contentType ← stripHtml (contentTypeOf item)
  return { ReconItem.of programId "httpx" (urlField (item.get "url")) with
    host := urlField (item.get "host")
    title
    statusCode := (item.get "status-code").orElse (item.get "status_code")
    webserver
    port := textOr (item.get "port") ""
    tech := stripText (techOf item)
    contentType }

/-- `parse_httpx`. -/
def parseHttpx (items : List Item) (programId : String) : Except Exn (List ReconItem) :=
  items.mapM (parseHttpxItem programId)

/-- A dictionary, and nothing for any other value. -/
def dictOf (value : Json) : Json := if value.isObj then value else .obj []

/-- A weakness id, which can be joined when it is a text. -/
def cweId : Json → Except Exn Text
  | .str s => .ok s.toList
  | _ => .error .typeError

/-- The weakness ids of a classification: a list of texts is joined, anything else is one text. -/
def cweOf (classification : Json) : Except Exn Text :=
  match classification.field "cwe-id" with
  | .arr xs => do
    let ids ← xs.mapM cweId
    return join [','] ids
  | value => .ok (textOr value "")

/-- A row of `parse_nuclei`. -/
def parseNucleiItem (programId : String) (item : Item) : Except Exn ParsedScanItem := do
  let info := dictOf (item.get "info")
  let classification := dictOf (info.field "classification")
  let templateId ← stripHtml ((item.get "template-id").orElse (item.get "templateID"))
  let title ← stripHtml
    ((info.field "name").orElse ((item.get "matcher-name").orElse (.str "Untitled Finding")))
  let severity ← stripHtml ((info.field "severity").orElse (.str "info"))
  let type ← stripHtml (item.get "type")
  let description ← stripHtml (info.field "description")
  let cwe ← cweOf classification
  return {
    programId
    source := "nuclei"
    templateId
    title
    severity
    asset := urlField ((item.get "matched-at").orElse (item.get "host"))
    matchedAt := urlField (item.get "matched-at")
    type
    description
    status := "new"
    cwe := stripText cwe
    cvss := stripText (textOr (classification.field "cvss-score") "")
    detectionMethod := []
    payload := []
    matchEvidence := []
    confidence := [] }

/-- `parse_nuclei`. -/
def parseNuclei (items : List Item) (programId : String) : Except Exn (List ParsedScanItem) :=
  items.mapM (parseNucleiItem programId)

/-- `_DALFOX_TIERS`, nothing for an unknown type. -/
def dalfoxTier (type : Text) : Text :=
  if type == ['V'] then "vulnerable".toList
  else if type == ['R'] then "reflected".toList
  else if type == ['A'] then "ast".toList
  else if type == ['I'] then "informational".toList
  else []

/-- `_SEVERITIES`. -/
def severities : List Text :=
  ["info".toList, "low".toList, "medium".toList, "high".toList, "critical".toList]

/-- `_DALFOX_DETECTION`. -/
def dalfoxDetection : List Text :=
  ["reflection".toList, "dom-verification".toList, "ast".toList, "oob".toList, "library".toList]

/-- `_DALFOX_CONFIDENCE`. -/
def dalfoxConfidence : List Text := ["high".toList, "low".toList]

/-- A word of a fixed vocabulary in any letter case, and a default for any other value. -/
def wordOf (words : List Text) (default : Text) (value : Json) : Text :=
  let word := Unicode.lower (Text.strip (textOr value ""))
  if words.contains word then word else default

/-- The injection context and the parameter, which identify a match. -/
def dalfoxTemplate (inject param : Text) : Text :=
  (join [':'] ([inject, param].filter fun part => !part.isEmpty)).take 200

/-- The title of a match. -/
def dalfoxTitle (inject param : Text) : Text :=
  let title := if param.isEmpty then "XSS candidate".toList
    else "XSS in parameter '".toList ++ param ++ ['\'']
  if inject.isEmpty then title else title ++ " (".toList ++ inject ++ [')']

/-- A row of `parse_dalfox`. -/
def parseDalfoxItem (programId : String) (item : Item) : ParsedScanItem :=
  let url := httpUrl (item.get "data")
  let param := plain (item.get "param") 200
  let inject := plain (item.get "inject_type") 100
  let payload := plain (item.get "payload") 2000
  let message := textOr (item.get "message_str") ""
  let message :=
    if payload.isEmpty then message
    else replaceFrom (item.get "payload").toStr.toList "[payload]".toList 0 message
  {
    programId
    source := "dalfox"
    templateId := dalfoxTemplate inject param
    title := (stripText (dalfoxTitle inject param)).take 200
    severity := wordOf severities "info".toList (item.get "severity")
    asset := url
    matchedAt := url
    type := dalfoxTier (Unicode.upper (Text.strip (textOr (item.get "type") "")))
    description := join [' '] ([stripText (textOr (item.get "type_description") ""),
      stripText message, stripText (textOr (item.get "confidence_reason") "")].filter
        fun part => !part.isEmpty)
    status := "new"
    cwe := stripText (textOr (item.get "cwe") "")
    cvss := []
    detectionMethod := wordOf dalfoxDetection [] (item.get "detection_method")
    payload
    matchEvidence := plain (item.get "evidence") 2000
    confidence := wordOf dalfoxConfidence [] (item.get "confidence") }

/-- `parse_dalfox`. -/
def parseDalfox (items : List Item) (programId : String) : List ParsedScanItem :=
  items.map (parseDalfoxItem programId)

/-- The content type in a record of katana: its own, or the one among the response headers. -/
def katanaContentType (item : Item) (response : Json) : Json :=
  if item.get "content_type" = .null then
    match dictOf (response.field "headers") with
    | .obj headers => ((headers.find? fun p =>
        Unicode.lower p.1.toList == "content-type".toList).map Prod.snd).getD (.str "")
    | _ => .str ""
  else item.get "content_type"

/-- A row of `parse_katana`, if the record has a web URL. -/
def parseKatanaItem (programId : String) (item : Item) : Option ReconItem :=
  let request := dictOf (item.get "request")
  let response := dictOf (item.get "response")
  let number (name : String) : Json :=
    asInt (if (Json.obj item).hasField name then item.get name else response.field name)
  (webUrl ((item.get "url").orElse (request.field "endpoint"))).map fun (url, host, path) =>
    { ReconItem.of programId "katana" (urlField (.str (String.ofList url))) with
      host := urlField (.str (String.ofList host))
      path := urlField (.str (String.ofList path))
      statusCode := number "status_code"
      length := number "content_length"
      contentType := (stripText (textOr (katanaContentType item response) "")).take 200 }

/-- `parse_katana`. -/
def parseKatana (items : List Item) (programId : String) : List ReconItem :=
  items.filterMap (parseKatanaItem programId)

omit [Sanitizer] in
/-- A row of `parse_gau`, if the line has a web URL. -/
def parseGauItem (programId : String) (item : Item) : Option ReconItem :=
  (webUrl (item.get "url")).map fun (url, host, path) =>
    { ReconItem.of programId "gau" (urlField (.str (String.ofList url))) with
      host := urlField (.str (String.ofList host))
      path := urlField (.str (String.ofList path)) }

/-- `parse_gau`. -/
def parseGau (items : List Item) (programId : String) : List ReconItem :=
  items.filterMap (parseGauItem programId)

end VardrMap.Parsers
