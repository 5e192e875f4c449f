import VardrMap.Models

/-!
# Job configurations

A queued job carries a dictionary of options. Which options a tool takes and what they may hold
is checked when the job is queued, and there the request rate of a tool that sends traffic is
held under the ceiling of its engagement: a higher rate is refused, a missing one is filled in.
-/
namespace VardrMap
open Lib

/-! ## Tables -/

/-- `_TOOL_CONFIG_KEYS`. -/
def toolConfigKeys : List (String × List String) := [
  ("httpx", ["status_code", "limit", "rate", "headers"]),
  ("nuclei", ["severity", "templates", "rate", "headers"]),
  ("subfinder", ["recursive", "sources"]),
  ("nmap", ["top_ports", "timing"]),
  ("dnsx", ["limit", "timeout"]),
  ("naabu", ["top_ports", "limit", "timeout"]),
  ("katana", ["limit", "status_code", "depth", "js_crawl", "timeout", "rate", "headers"]),
  ("gau", ["subs", "providers", "timeout"]),
  ("dalfox", ["limit", "status_code", "delay", "worker", "mining", "timeout", "headers"]),
  ("ffuf", ["wordlist", "extensions", "match_codes", "rate", "limit", "timeout", "headers"]),
  (gateTool, ["test_case_id", "timeout"])]

/-- `_NUCLEI_SEVERITIES`. -/
def nucleiSeverities : List String := ["info", "low", "medium", "high", "critical"]

/-- `_GAU_PROVIDERS`. -/
def gauProviders : List String := ["wayback", "commoncrawl", "otx", "urlscan"]

/-- `_BOOL_CONFIG_KEYS`. -/
def boolConfigKeys : List (String × String) :=
  [("katana", "js_crawl"), ("gau", "subs"), ("dalfox", "mining")]

/-- The bounds of one integer option of a tool. -/
structure IntBound where
  tool : String
  key : String
  low : ℤ
  high : ℤ

/-- `_INT_CONFIG_BOUNDS`. -/
def intConfigBounds : List IntBound := [
  ⟨"dnsx", "limit", 1, 1000000⟩,
  ⟨"dnsx", "timeout", 1, 86400⟩,
  ⟨"naabu", "top_ports", 1, 65535⟩,
  ⟨"naabu", "limit", 1, 1000000⟩,
  ⟨"naabu", "timeout", 1, 86400⟩,
  ⟨"katana", "limit", 1, 1000000⟩,
  ⟨"katana", "depth", 1, 10⟩,
  ⟨"katana", "timeout", 1, 86400⟩,
  ⟨"gau", "timeout", 1, 86400⟩,
  ⟨"dalfox", "limit", 1, 1000000⟩,
  ⟨"dalfox", "worker", 1, 100⟩,
  ⟨"dalfox", "delay", 0, 10000⟩,
  ⟨"dalfox", "timeout", 1, 86400⟩,
  ⟨"ffuf", "rate", 1, 1000⟩,
  ⟨"ffuf", "limit", 1, 1000000⟩,
  ⟨"ffuf", "timeout", 1, 86400⟩,
  ⟨"httpx", "rate", 1, 1000⟩,
  ⟨"nuclei", "rate", 1, 1000⟩,
  ⟨"katana", "rate", 1, 1000⟩]

/-- `_HEADER_TOOLS`. -/
def headerTools : List String := ["httpx", "nuclei", "katana", "ffuf", "dalfox"]

/-- `_RATE_TOOL_DEFAULTS`. -/
def rateToolDefaults : List (String × ℤ) :=
  [("httpx", 150), ("nuclei", 150), ("katana", 150), ("ffuf", 50)]

/-! ## Readers -/

/-- `value in (None, "")`. -/
def unset : Json → Bool
  | .null => true
  | .str s => s.isEmpty
  | _ => false

/-- An option that a client got wrong. -/
def badConfig (detail : String) : Refusal := .http 400 detail

variable [Unicode]

/-- The texts as a list of strings is printed. -/
def shownTexts (texts : List Text) : String :=
  String.ofList (Json.repr (.arr (texts.map fun t => .str (String.ofList t))))

/-- One text as it is printed in quotes. -/
def shownText (text : Text) : String := String.ofList (Json.reprText text)

/-- `int(value)` under a handler of type and value errors. -/
def intOr (value : Json) (refusal : Refusal) : Except Refusal ℤ :=
  match value.toInt with
  | .ok n => .ok n
  | .error .overflowError => .error (.raised .overflowError)
  | .error _ => .error refusal

/-- The trimmed texts of a list, or of a string parted at its commas; empty ones are left out. -/
def listed : Json → List Text
  | .arr xs => trimmed (xs.map fun x => x.toStr.toList)
  | value => trimmed (Text.fields ',' value.toStr.toList)
where
  trimmed (parts : List Text) : List Text :=
    (parts.map Text.strip).filter fun part => !part.isEmpty

/-! ## Headers -/

/-- `_HEADER_NAME`: its end matches before a closing line break too. -/
def headerName (name : Text) : Bool :=
  let token := if name.getLast? == some '\n' then name.dropLast else name
  !token.isEmpty && token.length ≤ 100 &&
    token.all fun c => isAscii c && (c.isAlphanum || "!#$%&'*+.^_`|~-".toList.contains c)

/-- The name and the value of a header that is written as text. -/
def headerPair : Json → Except Refusal (Text × Text)
  | .str item =>
    match Text.cut [':'] item.toList with
    | some (name, value) => .ok (Text.strip name, Text.strip value)
    | none => .error (badConfig s!"header {shownText item.toList} must be 'Name: value'")
  | item => .error (badConfig s!"invalid header entry {String.ofList item.repr}")

/-- The headers of a dictionary or of a list. -/
def headerPairs : Json → Except Refusal (List (Text × Text))
  | .obj fields => .ok (fields.map fun (name, value) => (name.toList, value.toStr.toList))
  | .arr items => items.mapM headerPair
  | _ => .error (badConfig "config.headers must be an object or list")

/-- The headers one after the other, with the names that came before. -/
def checkHeaders : List Text → List (Text × Text) → Except Refusal Unit
  | _, [] => .ok ()
  | seen, (name, value) :: pairs => do
    ensure (headerName name) (badConfig s!"invalid header name {shownText name}")
    ensure (value.all fun c => 32 ≤ c.toNat && c.toNat != 127)
      (badConfig s!"header {shownText name} has an invalid value")
    ensure (name.length + value.length + 2 ≤ 2000)
      (badConfig s!"header {shownText name} is too long")
    let key := Unicode.lower name
    ensure (!seen.contains key) (badConfig s!"duplicate header {shownText name}")
    checkHeaders (key :: seen) pairs

/-- `_validate_headers`. -/
def validateHeaders (config : Json) : Except Refusal Unit := do
  let raw := config.field "headers"
  if unset raw || raw == .arr [] then return
  let pairs ← headerPairs raw
  ensure (pairs.length ≤ 20) (badConfig "too many headers; the limit is 20")
  checkHeaders [] pairs

/-! ## Options of ffuf -/

/-- `_FFUF_WORDLIST`, on a text without white space around it. -/
def ffufWordlist (name : Text) : Bool :=
  let plain (c : Char) : Bool := isAscii c && (c.isLower || c.isDigit)
  match name with
  | [] => false
  | c :: cs => plain c && cs.length ≤ 39 && cs.all fun c => plain c || c == '_' || c == '-'

/-- `_FFUF_EXTENSION`. -/
def ffufExtension : Text → Bool
  | '.' :: cs => !cs.isEmpty && cs.length ≤ 10 && cs.all fun c => isAscii c && c.isAlphanum
  | _ => false

/-- `_FFUF_STATUS`. -/
def ffufStatus (code : Text) : Bool :=
  code.length == 3 && code.all fun c => (Unicode.decimal c).isSome

/-- `_validate_ffuf_config`. -/
def validateFfufConfig (config : Json) : Except Refusal Unit := do
  let wordlist := config.field "wordlist"
  ensure (unset wordlist || wordlist.str?.any fun name => ffufWordlist (Text.strip name.toList))
    (badConfig ("ffuf config.wordlist must be a wordlist name like 'common' or 'api-paths' " ++
      "(lowercase letters, digits, '-' and '_'), not a path. " ++
      "The runner resolves it against its own wordlists directory."))
  let extensions := config.field "extensions"
  if !unset extensions then
    ensure (extensions.str?.isSome || extensions.arr?.isSome)
      (badConfig s!"ffuf config.extensions must be a string or list, got {extensions.typeName}")
    let normalized := (listed extensions).map fun n => if n.head? == some '.' then n else '.' :: n
    let bad := normalized.filter fun n => !ffufExtension n
    ensure bad.isEmpty
      (badConfig s!"ffuf config.extensions must look like '.php' or '.bak', got: {shownTexts bad}")
  let codes := config.field "match_codes"
  if !unset codes then
    ensure (codes.str?.isSome || codes.arr?.isSome || codes.int?.isSome)
      (badConfig ("ffuf config.match_codes must be a status code, string or list, got " ++
        codes.typeName))
    let bad := (listed codes).filter fun c => !ffufStatus c
    ensure (listed codes == ["all".toList] || bad.isEmpty)
      (badConfig ("ffuf config.match_codes must be three-digit statuses like '200,301,403', " ++
        s!"or 'all', got: {shownTexts bad}"))

/-! ## All options -/

/-- One integer option. -/
def IntBound.check (b : IntBound) (config : Json) : Except Refusal Unit := do
  let value := config.field b.key
  if unset value then return
  let n ← intOr value (badConfig s!"{b.tool} config.{b.key} must be an integer")
  ensure (b.low ≤ n && n ≤ b.high)
    (badConfig s!"{b.tool} config.{b.key} must be between {b.low} and {b.high}")

/-- One yes-or-no option. -/
def checkBool (config : Json) (tool key : String) : Except Refusal Unit :=
  let value := config.field key
  let text := Unicode.lower (Text.strip value.toStr.toList)
  ensure (unset value || (value matches .bool _) || text == "true".toList || text == "false".toList)
    (badConfig s!"{tool} config.{key} must be true or false")

/-- The options that one tool alone takes. -/
def checkOwn (tool : String) (config : Json) : Except Refusal Unit := do
  if tool == "httpx" && config.hasField "limit" then
    let _ ← intOr (config.field "limit") (badConfig "httpx config.limit must be an integer")
  if tool == "nuclei" && (config.field "severity").truthy then
    let parts := (Text.fields ',' (config.field "severity").toStr.toList).map Text.strip
    let bad := parts.filter fun s => !s.isEmpty && !nucleiSeverities.contains (String.ofList s)
    ensure bad.isEmpty
      (badConfig s!"nuclei severity must be info/low/medium/high/critical, got: {shownTexts bad}")
  if tool == "nmap" && config.hasField "timing" then
    let t ← intOr (config.field "timing") (badConfig "nmap config.timing must be 0-4")
    ensure (0 ≤ t && t ≤ 4) (badConfig "nmap config.timing must be 0-4")
  (boolConfigKeys.filter fun b => b.1 == tool).forM fun b => checkBool config b.1 b.2
  if tool == "gau" && (config.field "providers").truthy then
    let bad := ((listed (config.field "providers")).map String.ofList).dedup.filter fun n =>
      !gauProviders.contains n
    ensure bad.isEmpty (badConfig ("gau providers must be wayback/commoncrawl/otx/urlscan, got: " ++
      shownTexts ((bad.insertionSort (· ≤ ·)).map String.toList)))
  if tool == "ffuf" then validateFfufConfig config

/-- The timeout of a gate job. -/
def checkGateTimeout (tool : String) (config : Json) : Except Refusal Unit :=
  ensure (tool != gateTool || !config.hasField "timeout" ||
      (config.field "timeout").int?.any fun n => 1 ≤ n && n ≤ 86400)
    (badConfig "vardrgate_api_test config.timeout must be an integer between 1 and 86400")

/-- Only the options of the tool. -/
def checkKeys (tool : String) (config : Json) : Except Refusal Unit :=
  let unknown := config.keys.filter fun k => !((toolConfigKeys.lookup tool).getD []).contains k
  ensure unknown.isEmpty (badConfig (s!"unknown config keys for {tool}: " ++
    shownTexts ((unknown.insertionSort (· ≤ ·)).map String.toList)))

/-- The headers, of a tool that takes them. -/
def checkToolHeaders (tool : String) (config : Json) : Except Refusal Unit :=
  if headerTools.contains tool then validateHeaders config else .ok ()

/-- `_validate_job_config`. -/
def validateJobConfig (tool : String) (config : Json) : Except Refusal Unit := do
  checkGateTimeout tool config
  checkKeys tool config
  checkOwn tool config
  checkToolHeaders tool config
  (intConfigBounds.filter fun b => b.tool == tool).forM fun b => b.check config

/-- `_enforce_rate_ceiling`: a rate that is no integer is left to the bounds. -/
def enforceRateCeiling (ceiling : Option ℤ) (tool : String) (config : Json) :
    Except Refusal Json :=
  match ceiling, rateToolDefaults.lookup tool with
  | some ceiling, some default =>
    let raw := config.field "rate"
    if unset raw then .ok (config.set "rate" (.int (min default ceiling)))
    else match raw.toInt with
      | .ok requested => do
        ensure (requested ≤ ceiling) (badConfig (s!"{tool} config.rate {requested} exceeds " ++
          s!"this engagement's ceiling of {ceiling}"))
        return config
      | .error .overflowError => .error (.raised .overflowError)
      | .error _ => .ok config
  | _, _ => .ok config

/-- The options are checked when there are any. -/
def checkGiven (tool : String) (config : Json) : Except Refusal Unit :=
  if config.truthy then validateJobConfig tool config else .ok ()

/-- The configuration that is stored for a queued job. -/
def queuedConfig (ceiling : Option ℤ) (tool : String) (body : Json) : Except Refusal Json := do
  let config := if body.isObj then body else .obj []
  checkGiven tool config
  enforceRateCeiling ceiling tool config

/-! ## The ceiling -/

/-- A tool that sends traffic has a rate that reads as an integer, at most the ceiling. -/
def RateWithin (ceiling : Option ℤ) (tool : String) (config : Json) : Prop :=
  ∀ c ∈ ceiling, (rateToolDefaults.lookup tool).isSome →
    ∃ n, (config.field "rate").toInt = .ok n ∧ n ≤ c

omit [Unicode] in
/-- Every tool with a default rate has a bound on its rate. -/
theorem exists_rateBound {tool : String} (h : (rateToolDefaults.lookup tool).isSome) :
    ∃ b ∈ intConfigBounds, b.tool = tool ∧ b.key = "rate" := by
  by_contra hnone
  have hne : ∀ b ∈ intConfigBounds, b.key = "rate" → (tool == b.tool) = false := fun b hb hkey =>
    beq_eq_false_iff_ne.mpr fun heq => hnone ⟨b, hb, heq.symm, hkey⟩
  simp only [intConfigBounds, List.forall_mem_cons] at hne
  simp [rateToolDefaults, List.lookup_cons, hne] at h

theorem intOr_eq_ok {value : Json} {refusal : Refusal} {n : ℤ}
    (h : intOr value refusal = .ok n) : value.toInt = .ok n := by
  unfold intOr at h
  split at h
  · rename_i m hm
    rw [hm, Except.ok.inj h]
  · cases h
  · cases h

/-- A rate that passed its bounds reads as an integer. -/
theorem validateJobConfig_rate {tool : String} {config : Json} {u : Unit}
    (h : validateJobConfig tool config = .ok u) (htool : (rateToolDefaults.lookup tool).isSome)
    (hset : unset (config.field "rate") = false) :
    ∃ n, (config.field "rate").toInt = .ok n := by
  obtain ⟨b, hb, rfl, hkey⟩ := exists_rateBound htool
  unfold validateJobConfig at h
  obtain ⟨_, -, h⟩ := bind_eq_ok h
  obtain ⟨_, -, h⟩ := bind_eq_ok h
  obtain ⟨_, -, h⟩ := bind_eq_ok h
  obtain ⟨_, -, h⟩ := bind_eq_ok h
  have hcheck := forM_eq_ok h b (List.mem_filter.mpr ⟨hb, beq_self_eq_true _⟩)
  unfold IntBound.check at hcheck
  simp only [hkey, hset] at hcheck
  obtain ⟨n, hn, -⟩ := bind_eq_ok hcheck
  exact ⟨n, intOr_eq_ok hn⟩

omit [Unicode] in
theorem truthy_of_field {config : Json} {k : String} (h : config.field k ≠ .null) :
    config.truthy = true := by
  cases config with
  | obj fields =>
    cases fields with
    | nil => exact absurd rfl h
    | cons => rfl
  | _ => exact absurd rfl h

omit [Unicode] in
theorem isObj_of_body (body : Json) : (if body.isObj then body else .obj []).isObj = true := by
  split
  · assumption
  · rfl

/-- What passed the options and the ceiling keeps the rate under the ceiling. -/
theorem enforceRateCeiling_eq_ok {ceiling : Option ℤ} {tool : String} {config config' : Json}
    (hobj : config.isObj = true) (hgiven : checkGiven tool config = .ok ())
    (h : enforceRateCeiling ceiling tool config = .ok config') :
    RateWithin ceiling tool config' := by
  rintro c rfl htool
  obtain ⟨default, hdefault⟩ := Option.isSome_iff_exists.mp htool
  simp only [enforceRateCeiling, hdefault] at h
  cases hset : unset (config.field "rate") with
  | true =>
    rw [if_pos hset] at h
    obtain rfl := Except.ok.inj h
    exact ⟨_, congrArg Json.toInt (Json.field_set_self hobj _), min_le_right ..⟩
  | false =>
    rw [hset, if_neg (by simp)] at h
    have hpresent : config.field "rate" ≠ .null := fun hnull => by simp [hnull, unset] at hset
    rw [checkGiven, if_pos (truthy_of_field hpresent)] at hgiven
    obtain ⟨n, hn⟩ := validateJobConfig_rate hgiven htool hset
    rw [hn] at h
    obtain ⟨_, hle, h⟩ := bind_eq_ok h
    obtain rfl := Except.ok.inj h
    exact ⟨n, hn, by simpa using ensure_eq_ok hle⟩

/-- A configuration that is stored keeps the rate under the ceiling. -/
theorem queuedConfig_eq_ok {ceiling : Option ℤ} {tool : String} {body config : Json}
    (h : queuedConfig ceiling tool body = .ok config) : RateWithin ceiling tool config := by
  obtain ⟨_, hgiven, h⟩ := bind_eq_ok h
  exact enforceRateCeiling_eq_ok (isObj_of_body body) hgiven h

end VardrMap
