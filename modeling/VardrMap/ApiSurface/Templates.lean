import VardrMap.Lib.Decimal
import VardrMap.ApiSurface.Counts

/-!
# Inferred templates and the cases they match

A capture without a template of its own gets one from its path: segments that look like
identifiers become placeholders. A case matches an operation by its route, segment by
segment. `inferred_template_matches` says that the two agree: a case with the method and the
URL of a capture matches the operation that the capture was stored under, in every
interleaving of the calls.
-/
namespace VardrMap
open Lib

/-! ## Segments -/

/-- A name in braces. -/
def Placeholder (segment : Text) : Prop :=
  ∃ name : Text, name ≠ [] ∧ '\n' ∉ name ∧ segment = '{' :: name ++ ['}']

/-- A template's segment fits a path's: the same, or a placeholder over anything but nothing. -/
def SegmentFits (template path : Text) : Prop :=
  template = path ∨ (path ≠ [] ∧ Placeholder template)

theorem isPlaceholder_iff {segment : Text} : isPlaceholder segment = true ↔ Placeholder segment := by
  constructor
  · intro h
    simp only [isPlaceholder, Bool.and_eq_true, beq_iff_eq, decide_eq_true_eq] at h
    obtain ⟨⟨⟨hfirst, hlast⟩, hlength⟩, hname⟩ := h
    cases segment with
    | nil => simp at hfirst
    | cons c rest =>
      obtain rfl := Option.some.inj hfirst
      have hne : rest ≠ [] := by
        rintro rfl
        simp at hlength
      have hend : rest.getLast hne = '}' := by
        rw [List.getLast?_cons, List.getLast?_eq_getLast_of_ne_nil hne] at hlast
        exact Option.some.inj hlast
      refine ⟨rest.dropLast, ?_, ?_, ?_⟩
      · intro hnil
        have := congrArg List.length hnil
        simp only [List.length_dropLast, List.length_nil, List.length_cons] at this hlength
        omega
      · intro hmem
        simpa using List.all_eq_true.mp hname '\n' (by simpa using hmem)
      · rw [List.cons_append, ← hend, List.dropLast_append_getLast]
  · rintro ⟨name, hne, hname, rfl⟩
    have hlength : 0 < name.length := List.length_pos_iff.mpr hne
    simp only [isPlaceholder, Bool.and_eq_true, beq_iff_eq, decide_eq_true_eq]
    refine ⟨⟨⟨by simp, by simp [List.getLast?_cons]⟩, by simp; omega⟩, ?_⟩
    rw [List.all_eq_true]
    intro c hc
    have hmem : c ∈ name := by simpa using hc
    simpa using fun h : c = '\n' => hname (h ▸ hmem)

/-- A template matches a path exactly when they have the same number of segments and each of the
template's fits the path's. -/
theorem templateMatches_iff (template path : Text) : templateMatches template path = true ↔
    List.Forall₂ SegmentFits (Text.fields '/' template) (Text.fields '/' path) := by
  have hpair : ∀ p : Text × Text, (p.1 == p.2 || (!p.2.isEmpty && isPlaceholder p.1)) = true ↔
      SegmentFits p.1 p.2 := by
    intro p
    rw [Bool.or_eq_true, Bool.and_eq_true, beq_iff_eq, isPlaceholder_iff]
    simp [SegmentFits]
  simp only [templateMatches, Bool.or_eq_true, beq_iff_eq, Bool.and_eq_true, List.all_eq_true,
    hpair]
  constructor
  · rintro (rfl | ⟨hlength, hall⟩)
    · exact List.forall₂_same.mpr fun _ _ => .inl rfl
    · exact List.forall₂_iff_zip.mpr ⟨hlength, fun {a b} hmem => hall (a, b) hmem⟩
  · intro h
    obtain ⟨hlength, hall⟩ := List.forall₂_iff_zip.mp h
    exact .inr ⟨hlength, fun p hmem => hall hmem⟩

section
variable [Unicode]

/-- A collapsed segment stays what it was, or is a placeholder for something. -/
theorem collapseSegment_fits (segment : Text) : SegmentFits (collapseSegment segment) segment := by
  unfold collapseSegment
  split_ifs with huuid hinteger hopaque
  · refine .inr ⟨?_, "uuid".toList, by decide, by decide, rfl⟩
    rintro rfl
    simp [isUuid, Text.fields] at huuid
  · refine .inr ⟨?_, "id".toList, by decide, by decide, rfl⟩
    rintro rfl
    simp [isInteger] at hinteger
  · refine .inr ⟨?_, "opaque_id".toList, by decide, by decide, rfl⟩
    rintro rfl
    simp [isOpaque] at hopaque
  · exact .inl rfl

/-- Collapsing brings no separator in. -/
theorem notMem_collapseSegment {segment : Text} (h : '/' ∉ segment) :
    '/' ∉ collapseSegment segment := by
  unfold collapseSegment
  split_ifs
  · decide
  · decide
  · decide
  · exact h

omit [Unicode] in
/-- A field holds no separator. -/
theorem notMem_of_mem_fields {c : Char} {s l : Text} (h : s ∈ Text.fields c l) : c ∉ s := by
  induction hn : l.length using Nat.strong_induction_on generalizing l with
  | _ n ih =>
  subst hn
  rcases Text.fields_cases c l with ⟨hc, hl⟩ | ⟨a, b, hc, rfl, hl⟩
  · rw [hl] at h
    obtain rfl := List.mem_singleton.mp h
    exact hc
  · rw [hl] at h
    rcases List.mem_cons.mp h with rfl | h
    · exact hc
    · exact ih b.length (by simp; omega) h rfl

/-- The path of a request: an empty one stands for the root. -/
def orRoot (path : Text) : Text := if path.isEmpty then ['/'] else path

/-- The template of a path is read back as its collapsed segments. -/
theorem fields_inferPathTemplate {path : Text} (h : path = [] ∨ path.head? = some '/') :
    Text.fields '/' (inferPathTemplate path) =
      (Text.fields '/' (orRoot path)).map collapseSegment := by
  obtain ⟨rest, hrest⟩ : ∃ rest, orRoot path = '/' :: rest := by
    rcases h with rfl | h
    · exact ⟨[], rfl⟩
    · cases path with
      | nil => simp at h
      | cons c rest => exact ⟨rest, by rw [← Option.some.inj h]; rfl⟩
  have hfields : Text.fields '/' (orRoot path) = [] :: Text.fields '/' rest := by
    rw [hrest]
    exact Text.fields_append_cons '/' [] rest
  have hsegments : ∀ s ∈ (Text.fields '/' (orRoot path)).map collapseSegment, '/' ∉ s := by
    intro s hs
    obtain ⟨segment, hsegment, rfl⟩ := List.mem_map.mp hs
    exact notMem_collapseSegment (notMem_of_mem_fields hsegment)
  have hjoined := List.splitOn_intercalate '/' hsegments (by simp [hfields])
  have hfirst : (List.intercalate ['/'] ((Text.fields '/' (orRoot path)).map
      collapseSegment)).head? = some '/' := by
    have hempty : collapseSegment [] = [] := by
      simp [collapseSegment, isUuid, isInteger, isOpaque, Text.fields]
    have hne : (Text.fields '/' rest).map collapseSegment ≠ [] := by
      simp [Text.fields]
    rw [hfields, List.map_cons, hempty, List.intercalate_cons_of_ne_nil hne]
    rfl
  have hinfer : inferPathTemplate path =
      List.intercalate ['/'] ((Text.fields '/' (orRoot path)).map collapseSegment) := by
    rw [orRoot] at hfirst ⊢
    rw [inferPathTemplate, if_pos (by rw [hfirst]; rfl)]
  rw [hinfer]
  exact hjoined

/-- A path fits the template that is inferred from it. -/
theorem templateMatches_inferPathTemplate {path : Text} (h : path = [] ∨ path.head? = some '/') :
    templateMatches (inferPathTemplate path) (orRoot path) = true := by
  rw [templateMatches_iff, fields_inferPathTemplate h]
  refine List.forall₂_map_left_iff.mpr ?_
  exact List.forall₂_same.mpr fun segment _ => collapseSegment_fits segment

/-! ## The parts of a URL with a host -/

omit [Unicode] in
theorem mem_of_mem_hostinfo {c : Char} {netloc : Text} (h : c ∈ (Url.hostinfo netloc).1) :
    c ∈ netloc := by
  have hbefore : ∀ (d : Char) (l : Text), c ∈ Text.before d l → c ∈ l :=
    fun _ _ hc => (List.takeWhile_sublist _).subset hc
  have hafter : ∀ (d : Char) (l : Text), c ∈ Text.after d l → c ∈ l :=
    fun _ _ hc => (List.dropWhile_sublist _).subset (List.mem_of_mem_tail hc)
  have hlast : ∀ (d : Char) (l : Text), c ∈ Text.afterLast d l → c ∈ l :=
    fun _ _ hc => (List.rtakeWhile_suffix _ _).subset hc
  unfold Url.hostinfo at h
  dsimp only at h
  split at h
  · exact hlast _ _ (hafter _ _ (hbefore _ _ h))
  · exact hlast _ _ (hbefore _ _ h)

theorem notMem_lower {l : Text} (h : '/' ∉ l) : '/' ∉ Unicode.lower l := by
  rw [← List.count_eq_zero] at h ⊢
  rw [Unicode.lower_count_mark l '/' (by decide), h]

/-- A host has no slash, and the path after one is empty or begins with one. -/
theorem urlsplit_spec {url : Text} {parsed : SplitUrl} {hostname : Text}
    (h : Url.urlsplit url = .ok parsed) (hhost : parsed.hostname = some hostname) :
    '/' ∉ hostname ∧ (parsed.path = [] ∨ parsed.path.head? = some '/') := by
  have hparts : ∃ rest scheme, (parsed.netloc = [] ∨ '/' ∉ parsed.netloc ∧
      (rest = [] ∨ ∃ c tail, rest = c :: tail ∧ Url.endsAuthority c = true)) ∧
      parsed = Url.tailParts scheme parsed.netloc rest := by
    unfold Url.urlsplit at h
    dsimp only at h
    split at h
    · rename_i rest _
      split_ifs at h
      obtain rfl := Except.ok.inj h
      refine ⟨_, _, .inr ⟨fun hmem => ?_, ?_⟩, rfl⟩
      · simpa [Url.endsAuthority] using List.mem_takeWhile_imp hmem
      · cases hrest : rest.dropWhile fun c => !Url.endsAuthority c with
        | nil => exact .inl rfl
        | cons c tail =>
          have hhead := List.head?_dropWhile_not (fun c => !Url.endsAuthority c) rest
          rw [hrest] at hhead
          exact .inr ⟨c, tail, rfl, by simpa using hhead⟩
    · obtain rfl := Except.ok.inj h
      exact ⟨_, _, .inl rfl, rfl⟩
  obtain ⟨rest, scheme, hnetloc, hparsed⟩ := hparts
  rcases hnetloc with hnil | ⟨hslash, hrest⟩
  · simp [SplitUrl.hostname, hnil, Url.hostinfo, Text.afterLast, Text.before] at hhost
  refine ⟨?_, ?_⟩
  · have hinfo : '/' ∉ (Url.hostinfo parsed.netloc).1 := fun hc => hslash (mem_of_mem_hostinfo hc)
    unfold SplitUrl.hostname at hhost
    dsimp only at hhost
    generalize (Url.hostinfo parsed.netloc).1 = host at hhost hinfo
    split_ifs at hhost with hempty hzone
    · obtain rfl := Option.some.inj hhost
      have hbefore : '/' ∉ Text.before '%' host := fun hc =>
        hinfo ((List.takeWhile_sublist _).subset hc)
      have hafter : '/' ∉ Text.after '%' host := fun hc =>
        hinfo ((List.dropWhile_sublist _).subset (List.mem_of_mem_tail hc))
      simp only [List.mem_append, List.mem_cons, not_or]
      exact ⟨notMem_lower hbefore, by decide, hafter⟩
    · obtain rfl := Option.some.inj hhost
      exact notMem_lower hinfo
  · have hpath : parsed.path = Text.before '?' (Text.before '#' rest) :=
      congrArg SplitUrl.path hparsed
    rw [hpath]
    rcases hrest with rfl | ⟨c, tail, rfl, hc⟩
    · exact .inl rfl
    · simp only [Url.endsAuthority, Bool.or_eq_true, beq_iff_eq] at hc
      rcases hc with (rfl | rfl) | rfl
      · exact .inr (by simp [Text.before])
      · exact .inl (by simp [Text.before])
      · exact .inl (by simp [Text.before])

end

/-! ## The canonical key -/

namespace ApiSurface

/-- The text of a canonical key. -/
def canonicalText (scheme host : Text) (port : ℕ) (template : Text) : Text :=
  scheme ++ "://".toList ++ host ++ ':' :: (toString port).toList ++ template

/-- Of the two schemes, hosts without a slash and absolute templates, the key gives every part
back. -/
theorem canonicalText_inj {scheme scheme' host host' template template' : Text} {port port' : ℕ}
    (hscheme : scheme = "http".toList ∨ scheme = "https".toList)
    (hscheme' : scheme' = "http".toList ∨ scheme' = "https".toList)
    (hhost : '/' ∉ host) (hhost' : '/' ∉ host') (htemplate : template.head? = some '/')
    (htemplate' : template'.head? = some '/')
    (h : canonicalText scheme host port template = canonicalText scheme' host' port' template') :
    scheme = scheme' ∧ host = host' ∧ port = port' ∧ template = template' := by
  have hbefore : ∀ s : Text, s = "http".toList ∨ s = "https".toList → ':' ∉ s := by
    rintro s (rfl | rfl) <;> decide
  have hkey : ∀ s h' : Text, ∀ n t, canonicalText s h' n t =
      s ++ ':' :: ('/' :: '/' :: (h' ++ ':' :: (toString n).toList ++ t)) := by
    intro s h' n t
    simp [canonicalText]
  rw [hkey, hkey] at h
  have hs : scheme = scheme' := by
    have hcut := congrArg (Text.before ':') h
    rwa [Text.before_append_cons (hbefore _ hscheme), Text.before_append_cons (hbefore _ hscheme')]
      at hcut
  subst hs
  have htail := List.append_cancel_left h
  simp only [List.cons.injEq, true_and] at htail
  obtain ⟨rest, rfl⟩ : ∃ rest, template = '/' :: rest := by
    cases template with
    | nil => simp at htemplate
    | cons c rest => exact ⟨rest, by rw [Option.some.inj htemplate]⟩
  obtain ⟨rest', rfl⟩ : ∃ rest, template' = '/' :: rest := by
    cases template' with
    | nil => simp at htemplate'
    | cons c rest => exact ⟨rest, by rw [Option.some.inj htemplate']⟩
  have hfree : ∀ (h : Text) (n : ℕ), '/' ∉ h → '/' ∉ h ++ ':' :: (toString n).toList := by
    intro h n hh
    simp only [List.mem_append, List.mem_cons, not_or]
    exact ⟨hh, by decide, notMem_toString (by decide) n⟩
  have hauthority : host ++ ':' :: (toString port).toList =
      host' ++ ':' :: (toString port').toList := by
    have hcut := congrArg (Text.before '/') htail
    rwa [Text.before_append_cons (hfree _ _ hhost), Text.before_append_cons (hfree _ _ hhost')]
      at hcut
  rw [hauthority] at htail
  have hport : port = port' := by
    have hcut := congrArg (Text.afterLast ':') hauthority
    rw [Text.afterLast_append_cons _ (notMem_toString (by decide) _),
      Text.afterLast_append_cons _ (notMem_toString (by decide) _)] at hcut
    exact toString_inj hcut
  subst hport
  exact ⟨rfl, List.append_cancel_right hauthority, rfl, List.append_cancel_left htail⟩

/-- The operation is the one that the capture is sent to. -/
structure ObservedEndpoint.Serves (e : ObservedEndpoint) (c : Capture) : Prop where
  route : e.toApiEndpoint = (c.endpoint e.id 0).toApiEndpoint
  canonical : e.canonicalKey = c.canonical

variable [Unicode]

/-- What a capture has passed, and what it consists of. -/
structure Capture.Admitted (c : Capture) (parsed : SplitUrl) (hostname : Text) : Prop where
  method : methods.contains c.payload.method = true
  url : Url.urlsplit c.payload.url.toList = .ok parsed
  absolute : parsed.scheme = "http".toList ∨ parsed.scheme = "https".toList
  host : parsed.hostname = some hostname
  port : parsed.port = .ok c.port
  template : (templateOf c.payload parsed.path).head? = some '/'
  scheme_eq : c.scheme = String.ofList parsed.scheme
  host_eq : c.host = String.ofList (Unicode.lower hostname)
  template_eq : c.template = String.ofList (templateOf c.payload parsed.path)
  canonical_eq : c.canonical = String.ofList (canonicalText parsed.scheme (Unicode.lower hostname)
    (portOf parsed.scheme c.port) (templateOf c.payload parsed.path))

theorem captureOf_eq_ok {programId : String} {payload : ExchangeCreate} {c : Capture}
    (h : captureOf programId payload = .ok c) : ∃ parsed hostname, c.Admitted parsed hostname := by
  unfold captureOf at h
  obtain ⟨⟨⟩, hmethod, h⟩ := bind_eq_ok h
  obtain ⟨⟨⟩, -, h⟩ := bind_eq_ok h
  obtain ⟨parsed, hurl, h⟩ := bind_eq_ok h
  obtain ⟨hostname, hhost, h⟩ := bind_eq_ok h
  obtain ⟨⟨⟩, htemplate, h⟩ := bind_eq_ok h
  obtain ⟨port, hport, h⟩ := bind_eq_ok h
  obtain rfl := Except.ok.inj h
  have hsome := Option.filter_eq_some_iff.mp (found_eq_ok hhost)
  have hslash := ensure_eq_ok htemplate
  simp only [Bool.and_eq_true, beq_iff_eq] at hslash
  exact ⟨parsed, hostname, ensure_eq_ok hmethod, raise_eq_ok hurl, by simpa using hsome.2, hsome.1,
    raise_eq_ok hport, hslash.1.1, rfl, rfl, rfl, rfl⟩

/-- The case sends what the capture sent: its URL, with its method as it was stored or in other
letters. -/
structure SameRequest (c : Capture) (request : Json) : Prop where
  isObj : request.isObj = true
  url : request.field "url" = .str c.payload.url
  method : ∃ m, request.field "method" = .str m ∧
    (m = c.payload.method ∨ Unicode.upper m.toList = c.payload.method.toList)

/-- The methods are written in capital letters. -/
theorem upper_methods {m : String} (h : methods.contains m = true) :
    Unicode.upper m.toList = m.toList := by
  have hall : ∀ m ∈ methods, m.toList.all isAscii = true ∧ m.toList.map Char.toUpper = m.toList := by
    decide
  obtain ⟨hascii, hupper⟩ := hall m (List.contains_iff_mem.mp h)
  rw [Unicode.upper_ascii _ (List.all_eq_true.mp hascii), hupper]

theorem toStrOr_str (s : String) : (Json.str s).toStrOr "" = s := by
  unfold Json.toStrOr
  split
  · rfl
  · rename_i h
    simpa [Json.truthy] using h

/-- The request of the case, read. -/
theorem SameRequest.parse {c : Capture} {parsed : SplitUrl} {hostname : Text} {request : Json}
    (h : SameRequest c request) (hc : c.Admitted parsed hostname) :
    parseRequest request = some {
      method := c.payload.method.toList
      scheme := parsed.scheme
      host := Unicode.lower hostname
      port := portOf parsed.scheme c.port
      template := inferPathTemplate (orRoot parsed.path)
      path := orRoot parsed.path } := by
  obtain ⟨m, hm, hupper⟩ := h.method
  have hmethod : Unicode.upper m.toList = c.payload.method.toList := by
    rcases hupper with rfl | hupper
    · exact upper_methods hc.method
    · exact hupper
  have hnonempty : c.payload.method.toList.isEmpty = false := by
    have hall : ∀ m ∈ methods, m.toList.isEmpty = false := by decide
    exact hall _ (List.contains_iff_mem.mp hc.method)
  have hscheme : ["http".toList, "https".toList].contains parsed.scheme = true := by
    simpa using hc.absolute
  simp only [parseRequest, h.isObj, h.url, hm, toStrOr_str, hc.url, requestOf, hc.port, hc.host,
    hmethod, hnonempty, hscheme, Bool.not_true, Bool.false_eq_true, if_false, Bool.or_self]
  rfl

/-- A case that sends what a capture with an inferred template sent matches every operation of the
capture's key that serves some capture. -/
theorem Capture.Admitted.matches {c c' : Capture} {parsed parsed' : SplitUrl}
    {hostname hostname' : Text} {e : ObservedEndpoint} {request : Json}
    (hc : c.Admitted parsed hostname) (hc' : c'.Admitted parsed' hostname') (he : e.Serves c')
    (hkey : e.operation = c.key) (hinferred : c.payload.pathTemplate.getD "" = "")
    (hrequest : SameRequest c request) :
    ∃ r, parseRequest request = some r ∧ operationMatches e.toApiEndpoint r = true := by
  refine ⟨_, hrequest.parse hc, ?_⟩
  obtain ⟨hslash, hpath⟩ := urlsplit_spec hc.url hc.host
  obtain ⟨hslash', -⟩ := urlsplit_spec hc'.url hc'.host
  simp only [ObservedEndpoint.operation, Capture.key, OperationKey.mk.injEq] at hkey
  obtain ⟨-, hmethod, hcanonical⟩ := hkey
  rw [he.canonical, hc.canonical_eq, hc'.canonical_eq] at hcanonical
  obtain ⟨hscheme, hhost, hport, htemplate⟩ := canonicalText_inj hc'.absolute hc.absolute
    (notMem_lower hslash') (notMem_lower hslash) hc'.template hc.template
    (String.ofList_injective hcanonical)
  have hinfer : templateOf c.payload parsed.path = inferPathTemplate parsed.path := by
    unfold templateOf
    split
    · rename_i t ht
      rw [ht, Option.getD_some] at hinferred
      rw [hinferred]
      rfl
    · rfl
  have hfits := templateMatches_inferPathTemplate hpath
  have hhttp : (textOr (some c'.scheme) "https").toList = parsed'.scheme := by
    rw [hc'.scheme_eq]
    rcases hc'.absolute with h | h <;> rw [h] <;> rfl
  have hstored : e.scheme = some c'.scheme ∧ e.host = c'.host ∧ e.port = c'.port ∧
      e.pathTemplate = c'.template := by
    rw [he.route]
    exact ⟨rfl, rfl, rfl, rfl⟩
  obtain ⟨hescheme, hehost, heport, hetemplate⟩ := hstored
  simp only [operationMatches, hescheme, hehost, heport, hetemplate, hhttp, hmethod,
    hc'.host_eq, hc'.template_eq, String.toList_ofList, Unicode.lower_lower, hscheme, hhost,
    htemplate, hinfer, hfits, beq_self_eq_true, Bool.and_true, Bool.true_and]
  rw [hscheme] at hport
  rw [hport]
  exact beq_self_eq_true _

/-! ## The stored operations -/

/-- `create_exchange` has let the capture through. -/
def Capture.Accepted (c : Capture) : Prop := ∃ parsed hostname, c.Admitted parsed hostname

/-- The operation serves a capture. -/
def ObservedEndpoint.Observed (e : ObservedEndpoint) : Prop :=
  ∃ c : Capture, c.Accepted ∧ e.Serves c

/-- The same operation, with other counts and times. -/
theorem ObservedEndpoint.Observed.of_eq {e e' : ObservedEndpoint} (h : e.Observed)
    (hroute : e'.toApiEndpoint = e.toApiEndpoint) (hkey : e'.canonicalKey = e.canonicalKey) :
    e'.Observed := by
  obtain ⟨c, hc, hserves⟩ := h
  have hid : e'.id = e.id := congrArg ApiEndpoint.id hroute
  refine ⟨c, hc, ?_, hkey.trans hserves.canonical⟩
  rw [hid]
  exact hroute.trans hserves.route

/-- A placed capture has the row of its operation. -/
structure Placed.Routed (s : Shared) (p : Placed) : Prop where
  accepted : p.capture.Accepted
  observed : p.endpoint.Observed
  operation : p.endpoint.operation = p.capture.key
  stored : p.inserted = false →
    ∃ e, s.endpoints.get? p.endpoint.id = some e ∧ e.operation = p.capture.key

/-- What a call has read is an accepted capture, with the row of its operation. -/
def Phase.Routed (s : Shared) : Phase → Prop
  | looking c | missing c _ | conflicting c _ => c.Accepted
  | placed p => p.Routed s
  | captured p row | counted p row => p.Routed s ∧ row.endpointId = p.endpoint.id
  | _ => True

/-- Every stored operation serves a capture, and so does every one that a call has read. -/
structure Routed (w : Calls) : Prop where
  stored : ∀ id e, w.shared.endpoints.get? id = some e → e.Observed
  phase : ∀ c, (w.phase c).Routed w.shared

/-- A change of the rows that leaves every operation where it is. -/
structure Shared.Keeps (s s' : Shared) : Prop where
  kept : ∀ id e, s.endpoints.get? id = some e →
    ∃ e', s'.endpoints.get? id = some e' ∧ e'.operation = e.operation
  observed : (∀ id e, s.endpoints.get? id = some e → e.Observed) →
    ∀ id e, s'.endpoints.get? id = some e → e.Observed

variable {s s' : Shared} {w w' : Calls} {c : ℕ}

theorem Shared.Keeps.of_eq (h : s'.endpoints = s.endpoints) : s.Keeps s' :=
  ⟨fun _ e he => ⟨e, h ▸ he, rfl⟩, fun hs id e he => hs id e (h ▸ he)⟩

/-- A row is replaced by one of the same operation. -/
theorem Shared.Keeps.put {e : ObservedEndpoint} (e' : ObservedEndpoint)
    (he : s.endpoints.get? e.id = some e)
    (hroute : e'.toApiEndpoint = e.toApiEndpoint) (hkey : e'.canonicalKey = e.canonicalKey)
    (h : s'.endpoints = s.endpoints.put e') : s.Keeps s' := by
  have hid : e'.id = e.id := congrArg ApiEndpoint.id hroute
  have hget : ∀ id, s'.endpoints.get? id =
      if e'.id = id then some e' else s.endpoints.get? id := by
    rw [h]
    exact Table.get?_put (r := e') (hid ▸ he)
  have hop : e'.operation = e.operation := by
    simp only [ObservedEndpoint.operation, hroute, hkey]
  refine ⟨fun id e₁ he₁ => ?_, fun hs id e₁ he₁ => ?_⟩
  · rw [hget]
    split
    · rename_i hid'
      rw [← hid', hid, he] at he₁
      exact ⟨e', rfl, Option.some.inj he₁ ▸ hop⟩
    · exact ⟨e₁, he₁, rfl⟩
  · rw [hget] at he₁
    split at he₁
    · exact Option.some.inj he₁ ▸ (hs _ e he).of_eq hroute hkey
    · exact hs id e₁ he₁

/-- The commit of a capture: its operation is stored afterwards. -/
theorem Placed.Routed.store {p : Placed} {row : CapturedExchange} (hp : p.Routed s)
    (h : s.store p row = .ok s') : s.Keeps s' ∧
      ∃ e, s'.endpoints.get? p.endpoint.id = some e ∧ e.operation = p.capture.key := by
  obtain ⟨endpoints, hendpoints, h⟩ := bind_eq_ok h
  obtain ⟨exchanges, -, h⟩ := bind_eq_ok h
  obtain rfl := Except.ok.inj h
  have hendpoints := found_eq_ok hendpoints
  unfold Shared.observe at hendpoints
  split at hendpoints
  · have hget := Table.get?_insert hendpoints
    refine ⟨⟨fun id e he => ⟨e, Table.get?_insert_of_get? hendpoints he, rfl⟩, ?_⟩,
      p.endpoint.observed p.now, (hget _).trans (if_pos rfl), hp.operation⟩
    intro hs id e he
    rcases Table.of_get?_insert hendpoints he with ⟨-, rfl⟩ | he
    · exact hp.observed.of_eq rfl rfl
    · exact hs id e he
  · rename_i hinserted
    obtain ⟨e, he, hop⟩ := hp.stored (Bool.eq_false_iff.mpr hinserted)
    rw [he] at hendpoints
    have hput := Option.some.inj hendpoints
    have hid : e.id = p.endpoint.id := Table.key_of_get? he
    have hstored : s.endpoints.get? e.id = some e := hid ▸ he
    refine ⟨.put (e.observed p.now) hstored rfl rfl hput.symm, e.observed p.now, ?_, hop⟩
    have hself := Table.get?_put_at (r := e.observed p.now) he hid
    exact hput ▸ hself

theorem Shared.Keeps.remove {row : CapturedExchange} {endpoint : ObservedEndpoint}
    (h : s.remove row endpoint = .ok s') : s.Keeps s' := by
  unfold Shared.remove at h
  dsimp only at h
  split at h
  · obtain rfl := Except.ok.inj h
    exact .of_eq rfl
  · obtain ⟨stored, hstored, h⟩ := bind_eq_ok h
    obtain rfl := Except.ok.inj h
    have hid : stored.id = endpoint.id := Table.key_of_get? (found_eq_ok hstored)
    have he : s.endpoints.get? stored.id = some stored := hid ▸ found_eq_ok hstored
    exact .put { stored with observationCount := lowered endpoint.observationCount } he
      rfl rfl rfl

theorem Placed.Routed.frame {p : Placed} (h : p.Routed s) (hs : s.Keeps s') : p.Routed s' where
  accepted := h.accepted
  observed := h.observed
  operation := h.operation
  stored hinserted := by
    obtain ⟨e, he, hop⟩ := h.stored hinserted
    obtain ⟨e', he', hop'⟩ := hs.kept _ e he
    exact ⟨e', he', hop'.trans hop⟩

theorem Phase.Routed.frame {x : Phase} (h : x.Routed s) (hs : s.Keeps s') : x.Routed s' := by
  cases x with
  | placed p => exact Placed.Routed.frame h hs
  | captured p row => exact ⟨h.1.frame hs, h.2⟩
  | counted p row => exact ⟨h.1.frame hs, h.2⟩
  | looking c => exact h
  | missing c now => exact h
  | conflicting c now => exact h
  | _ => trivial

/-! ## The statements -/

theorem Routed.enter {x : Phase} (h : Routed w) (hx : x.Routed w.shared) :
    Routed (w.enter c x) := ⟨h.stored, Clients.forall_enter hx h.phase⟩

theorem Routed.commit {x : Phase} (h : Routed w) (hs : w.shared.Keeps s') (hx : x.Routed s') :
    Routed (w.commit c s' x id) :=
  ⟨hs.observed h.stored, Clients.forall_commit hx fun d _ => (h.phase d).frame hs⟩

theorem Routed.finish {result : Except Refusal Answer} (h : Routed w) (hs : w.shared.Keeps s') :
    Routed (finish w c s' result) :=
  h.commit ⟨hs.kept, hs.observed⟩ trivial

theorem Routed.refuse (h : Routed w) (e : Refusal) : Routed (refuse w c e) :=
  h.finish (.of_eq rfl)

/-- A call takes a lock. -/
theorem Routed.lock {s' : Shared} {x : Phase} (h : Routed w) (hs : s'.endpoints = w.shared.endpoints)
    (hx : x.Routed w.shared) : Routed (w.commit c s' x id) :=
  h.commit (.of_eq hs) (hx.frame (.of_eq hs))

/-- A stored operation that was read for a capture. -/
theorem Routed.read {x : Capture} {now : Instant} {e : ObservedEndpoint} (h : Routed w)
    (hx : x.Accepted) (he : w.shared.endpointOf x.key = some e) :
    Placed.Routed w.shared ⟨x, now, e, false⟩ := by
  obtain ⟨hget, hop⟩ := Shared.endpointOf_eq_some he
  exact ⟨hx, h.stored _ e hget, hop, fun _ => ⟨e, hget, hop⟩⟩

theorem Routed.look {x : Capture} {now : Instant} (h : Routed w) (hc : w.phase c = .looking x) :
    Routed (look w c x now) := by
  have hx : (Phase.looking x).Routed w.shared := hc ▸ h.phase c
  unfold ApiSurface.look
  split
  · exact h.enter (h.read hx ‹_›)
  · exact h.enter hx

theorem Routed.again {x : Capture} {now : Instant} (h : Routed w)
    (hc : w.phase c = .conflicting x now) : Routed (again w c x now) := by
  have hx : (Phase.conflicting x now).Routed w.shared := hc ▸ h.phase c
  unfold ApiSurface.again
  split
  · exact h.enter (h.read hx ‹_›)
  · exact h.refuse _

theorem Routed.insert {x : Capture} {now : Instant} {newId : String} (h : Routed w)
    (hc : w.phase c = .missing x now) (hnext : insert w c x now newId = some w') : Routed w' := by
  have hx : (Phase.missing x now).Routed w.shared := hc ▸ h.phase c
  unfold ApiSurface.insert at hnext
  split at hnext
  · exact Option.some.inj hnext ▸ h.enter hx
  split at hnext
  · exact Option.some.inj hnext ▸ h.lock rfl ⟨hx, ⟨x, hx, rfl, rfl⟩, rfl, by simp⟩
  · cases hnext

theorem Routed.update {p : Placed} {row : CapturedExchange} (h : Routed w)
    (hc : w.phase c = .captured p row) (hnext : update w c p row = some w') : Routed w' := by
  have hp : (Phase.captured p row).Routed w.shared := hc ▸ h.phase c
  unfold ApiSurface.update at hnext
  split at hnext
  · exact Option.some.inj hnext ▸ h.lock rfl hp
  · cases hnext

theorem Routed.load {row : CapturedExchange} (h : Routed w) : Routed (load w c row) := by
  unfold ApiSurface.load
  split
  · exact h.enter trivial
  · exact h.refuse _

theorem Routed.flush {row : CapturedExchange} {endpoint : ObservedEndpoint} (h : Routed w)
    (hnext : flush w c row endpoint = some w') : Routed w' := by
  unfold ApiSurface.flush at hnext
  split at hnext
  · split at hnext
    · exact Option.some.inj hnext ▸ h.lock rfl trivial
    · cases hnext
  · split at hnext
    · exact Option.some.inj hnext ▸ h.lock rfl trivial
    · cases hnext

theorem Routed.store {p : Placed} {row : CapturedExchange} (h : Routed w)
    (hc : w.phase c = .counted p row) :
    Routed (ApiSurface.commit w c (w.shared.store p row) (.captured p.capture.key row)) := by
  have hp : (Phase.counted p row).Routed w.shared := hc ▸ h.phase c
  unfold ApiSurface.commit
  split
  · exact h.finish (hp.1.store ‹_›).1
  · exact h.refuse _

theorem Routed.remove {row : CapturedExchange} {endpoint : ObservedEndpoint} (h : Routed w) :
    Routed (ApiSurface.commit w c (w.shared.remove row endpoint) (.deleted row.id)) := by
  unfold ApiSurface.commit
  split
  · exact h.finish (.remove ‹_›)
  · exact h.refuse _

section
variable [WordTable] [Parsers.Sanitizer] {identity : Identity} {loads : Text → Option Json}

theorem Routed.create {request : HttpRequest} {programId : String} {payload : ExchangeCreate}
    (h : Routed w) : Routed (create identity w c request programId payload) := by
  unfold ApiSurface.create
  split
  · rename_i capture hcapture
    unfold captureRequest at hcapture
    obtain ⟨user, -, hcapture⟩ := bind_eq_ok hcapture
    obtain ⟨valid, -, hcapture⟩ := bind_eq_ok hcapture
    obtain ⟨engagement, -, hcapture⟩ := bind_eq_ok hcapture
    exact h.enter (captureOf_eq_ok hcapture)
  · exact h.refuse _

omit [WordTable] [Parsers.Sanitizer] in
theorem Routed.delete {request : HttpRequest} {programId exchangeId : String} (h : Routed w) :
    Routed (delete identity w c request programId exchangeId) := by
  unfold ApiSurface.delete
  split
  · exact h.enter trivial
  · exact h.refuse _

theorem Routed.capture {p : Placed} {newId : String} {createdAt : Instant} (h : Routed w)
    (hc : w.phase c = .placed p) (hnext : capture loads w c p newId createdAt = some w') :
    Routed w' := by
  have hp : (Phase.placed p).Routed w.shared := hc ▸ h.phase c
  unfold ApiSurface.capture at hnext
  dsimp only at hnext
  split at hnext
  · exact Option.some.inj hnext ▸ h.refuse _
  split at hnext
  · exact Option.some.inj hnext ▸ h.lock rfl ⟨hp, rfl⟩
  · cases hnext

theorem Routed.step {a : Action} (h : Routed w) (hnext : next identity loads w a = some w') :
    Routed w' := by
  cases a with
  | edit db =>
    obtain rfl := Option.some.inj hnext
    exact ⟨h.stored, fun d => (h.phase d).frame (.of_eq rfl)⟩
  | call c s =>
    unfold next at hnext
    dsimp only at hnext
    split at hnext
    · cases hnext
    · exact Option.some.inj hnext ▸ h.refuse _
    · exact Option.some.inj hnext ▸ h.create
    · exact Option.some.inj hnext ▸ h.look ‹_›
    · exact h.insert ‹_› hnext
    · exact Option.some.inj hnext ▸ h.again ‹_›
    · exact h.capture ‹_› hnext
    · exact h.update ‹_› hnext
    · exact Option.some.inj hnext ▸ h.store ‹_›
    · exact Option.some.inj hnext ▸ h.delete
    · exact Option.some.inj hnext ▸ h.load
    · exact h.flush hnext
    · exact Option.some.inj hnext ▸ h.remove
    · cases hnext

omit [WordTable] [Parsers.Sanitizer] in
theorem start_routed (db : Db) : Routed (start db) where
  stored id e he := by simp [start, Table.get?, Table.empty] at he
  phase _ := trivial

/-- In every state of a run, every operation serves a capture. -/
theorem Interleaving.routed {db : Db} {meets : Calls → Action → Prop} {actions : List Action}
    (h : Interleaving identity loads meets (start db) actions w) : Routed w :=
  h.invariant Routed
    (fun hw hs => by cases hs with | step hnext _ => exact hw.step hnext) (start_routed db)

/-- Whenever an interleaving comes to the commit of a capture whose template is inferred, a case
with its method and URL matches the operation that the capture is stored under; and matching
compares templates and paths segment by segment. -/
theorem inferred_template_matches :
    (∀ {db : Db} {actions : List Action} {w w' : Calls} {c : ℕ} {p : Placed}
      {row : CapturedExchange} {answer : Answer} {request : Json},
      Interleaving identity loads (fun _ _ => True) (start db) actions w →
      w.phase c = .counted p row → next identity loads w (.call c .commit) = some w' →
      w'.phase c = .ended (.ok answer) → p.capture.payload.pathTemplate.getD "" = "" →
      SameRequest p.capture request →
      ∃ e, w'.shared.endpoints.get? row.endpointId = some e ∧
        ∃ r, parseRequest request = some r ∧ operationMatches e.toApiEndpoint r = true) ∧
    ∀ template path : Text, templateMatches template path = true ↔
      List.Forall₂ SegmentFits (Text.fields '/' template) (Text.fields '/' path) := by
  refine ⟨?_, templateMatches_iff⟩
  intro db actions w w' c p row answer request hrun hphase hnext hended hinferred hrequest
  have hw := hrun.routed
  have hw' := hw.step hnext
  have hp : (Phase.counted p row).Routed w.shared := hphase ▸ hw.phase c
  unfold next at hnext
  simp only [hphase, ApiSurface.commit, Option.some.injEq] at hnext
  split at hnext
  · rename_i s hs
    obtain ⟨-, e, he, hkey⟩ := hp.1.store hs
    have hstored : w'.shared.endpoints.get? row.endpointId = some e := by
      rw [hp.2, ← hnext]
      exact he
    obtain ⟨parsed, hostname, hadmitted⟩ := hp.1.accepted
    obtain ⟨c', ⟨parsed', hostname', hadmitted'⟩, hserves⟩ := hw'.stored _ e hstored
    exact ⟨e, hstored, hadmitted.matches hadmitted' hserves hkey hinferred hrequest⟩
  · rw [← hnext] at hended
    simp [refuse, finish, Clients.phase_commit] at hended

end

/-- The capture of an operation with an identifier in its path. -/
def examplePromotion : List Action :=
  [.call 1 (.create exampleRequest "e1"
      { examplePayload with url := "https://A.example/users/7?x=1" }),
    .call 1 (.look 0), .call 1 (.insert "o1"), .call 1 (.capture "x1" 0), .call 1 .update]

/-- The case that replays it. -/
def exampleReplay : Json :=
  .obj [("method", .str "GET"), ("url", .str "https://A.example/users/7?x=1")]

/-- What a capture that is about to be stored was sent with, and its operation. -/
def Phase.sent : Phase → List String
  | counted p row =>
    [p.capture.payload.method, p.capture.payload.url, p.capture.payload.pathTemplate.getD "",
      row.endpointId]
  | _ => []

omit [Unicode] in
theorem Phase.sent_eq {x : Phase} {m u t i : String} (h : x.sent = [m, u, t, i]) :
    ∃ p row, x = .counted p row ∧ p.capture.payload.method = m ∧ p.capture.payload.url = u ∧
      p.capture.payload.pathTemplate.getD "" = t ∧ row.endpointId = i := by
  cases x with
  | counted p row =>
    simp only [Phase.sent, List.cons.injEq, and_true] at h
    exact ⟨p, row, rfl, h⟩
  | _ => simp [Phase.sent] at h

omit [Unicode] in
theorem Phase.answered_eq_true {x : Phase} (h : x.answered = true) : ∃ a, x = .ended (.ok a) := by
  cases x with
  | ended result =>
    cases result with
    | ok a => exact ⟨a, rfl⟩
    | error e => cases h
  | _ => cases h

omit [Unicode] in
theorem inferred_template_matches_example : ∃ e r,
    @parseRequest Unicode.ascii exampleReplay = some r ∧
      @operationMatches Unicode.ascii e r = true ∧ e.pathTemplate = "/users/\x7bid\x7d" := by
  let _ := Unicode.ascii
  let _ := WordTable.ascii
  let _ : Parsers.Sanitizer := ⟨id⟩
  let taken := examplePromotion.foldlM
    (fun s a => if True then next Deliverables.exampleSessions (fun _ => none) s a else none)
    (start Deliverables.exampleEngagements)
  have hrows : (taken.bind fun w =>
      (next Deliverables.exampleSessions (fun _ => none) w (.call 1 .commit)).map fun w' =>
        ((w.phase 1).sent, (w'.phase 1).answered,
          (w'.shared.endpoints.get? "o1").map (·.pathTemplate))) =
      some (["GET", "https://A.example/users/7?x=1", "", "o1"], true,
        some "/users/\x7bid\x7d") := by decide +kernel
  obtain ⟨w, hw, hrows⟩ := Option.bind_eq_some_iff.mp hrows
  obtain ⟨w', hnext, hrows⟩ := Option.map_eq_some_iff.mp hrows
  simp only [Prod.mk.injEq] at hrows
  obtain ⟨hsent, hanswered, htemplate⟩ := hrows
  obtain ⟨p, row, hphase, hmethod, hurl, hinferred, hid⟩ := Phase.sent_eq hsent
  obtain ⟨answer, hended⟩ := Phase.answered_eq_true hanswered
  have hrequest : SameRequest p.capture exampleReplay :=
    ⟨rfl, by rw [hurl]; rfl, "GET", rfl, .inl hmethod.symm⟩
  obtain ⟨e, he, r, hr, hmatches⟩ := inferred_template_matches.1
    (Lib.Run.of_foldlM hw) hphase hnext hended hinferred hrequest
  rw [hid] at he
  rw [he] at htemplate
  exact ⟨e.toApiEndpoint, r, hr, hmatches, Option.some.inj htemplate⟩

end ApiSurface
end VardrMap
