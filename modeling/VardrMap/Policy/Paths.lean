import VardrMap.Policy.RuleOrder

/-!
# What a path-scoped rule bounds

A `url` or `api` rule with a path is meant to hold for the targets at or beneath that path,
with or without trailing slashes. The evaluator compares path texts: it reads an empty path
as no path at all, takes a fragment for a part of the path, and never resolves dot segments.
`pathBound_iff` says for which targets the rules bound the path.
-/
namespace VardrMap.Policy
open Lib

variable [Unicode]

/-! ## Paths as segments -/

/-- The segments of a path text; none for an empty path and for the root. -/
def segments (path : Text) : List Text :=
  match path.tail with
  | [] => []
  | c :: l => Text.fields '/' (c :: l)

/-- A segment that stands for a directory of the path. -/
def isDotSegment (s : Text) : Bool := s == ['.'] || s == ['.', '.']

/-- Dot segments resolved from left to right: this directory, and the one above. -/
def resolve (segs : List Text) : List Text :=
  segs.foldl (fun out s =>
    if s == ['.'] then out else if s == ['.', '.'] then out.dropLast else out ++ [s]) []

omit [Unicode] in
theorem resolve_concat (segs : List Text) (s : Text) : resolve (segs ++ [s]) =
    if s == ['.'] then resolve segs else if s == ['.', '.'] then (resolve segs).dropLast
      else resolve segs ++ [s] := by
  simp [resolve, List.foldl_append]

omit [Unicode] in
/-- A path without dot segments is resolved. -/
theorem resolve_eq_self {segs : List Text} (h : ∀ s ∈ segs, isDotSegment s = false) :
    resolve segs = segs := by
  induction segs using List.reverseRecOn with
  | nil => rfl
  | append_singleton segs s ih =>
    have hs := h s (by simp)
    simp only [isDotSegment, Bool.or_eq_false_iff] at hs
    rw [resolve_concat, ih fun t ht => h t (by simp [ht]), hs.1, hs.2]
    simp

omit [Unicode] in
/-- No dot segment is left. -/
theorem isDotSegment_of_mem_resolve {segs : List Text} {s : Text} (h : s ∈ resolve segs) :
    isDotSegment s = false := by
  induction segs using List.reverseRecOn with
  | nil => simp [resolve] at h
  | append_singleton segs t ih =>
    rw [resolve_concat] at h
    split_ifs at h with hone htwo
    · exact ih h
    · exact ih (List.mem_of_mem_dropLast h)
    · rcases List.mem_append.mp h with h | h
      · exact ih h
      · obtain rfl := List.mem_singleton.mp h
        simp [isDotSegment, hone, htwo]

/-! ## URLs as their parts -/

/-- A URL text in the parts that a client reads: the scheme, the authority, the path without
trailing slashes, and the query or fragment. Without a scheme it holds no separator. -/
structure UrlParts where
  scheme : Option Text
  authority : Text
  path : Text
  rest : Text
  authority_chars : ∀ c ∈ authority, c ≠ '/' ∧ c ≠ '?' ∧ c ≠ '#'
  path_head : path = [] ∨ ∃ p, path = '/' :: p
  path_chars : '?' ∉ path ∧ '#' ∉ path
  path_open : path.getLast? ≠ some '/'
  rest_head : rest = [] ∨ ∃ r, rest = '?' :: r ∨ rest = '#' :: r
  scheme_reads : ∀ s ∈ scheme, ':' ∉ s
  bare_reads : scheme = none → ∀ n,
    ¬ schemeSep <:+: authority ++ (path ++ List.replicate n '/') ++ rest

namespace UrlParts

/-- What stands after the scheme when the path has that many trailing slashes. -/
def body (u : UrlParts) (n : ℕ) : Text :=
  u.authority ++ (u.path ++ List.replicate n '/') ++ u.rest

/-- The URL with that many trailing slashes on its path. -/
def text (u : UrlParts) (n : ℕ) : Text :=
  match u.scheme with
  | some s => s ++ schemeSep ++ u.body n
  | none => u.body n

/-- A fragment follows the path. -/
def hasFragment (u : UrlParts) : Bool := u.rest.head? == some '#'

/-- The segments of the path, compared without letter case. -/
def pathSegments (u : UrlParts) : List Text := segments (Unicode.lower u.path)

omit [Unicode] in
/-- The scheme is found where it is written. -/
theorem cut_text (u : UrlParts) (n : ℕ) :
    Text.cut schemeSep (u.text n) = u.scheme.map (·, u.body n) := by
  unfold text
  cases hs : u.scheme with
  | none => exact Text.cut_eq_none_iff.mpr (u.bare_reads hs n)
  | some s => exact Text.cut_append (u.scheme_reads s hs) (u.body n)

omit [Unicode] in
theorem afterScheme_text (u : UrlParts) (n : ℕ) : afterScheme (u.text n) = u.body n := by
  unfold afterScheme
  rw [cut_text]
  cases hs : u.scheme with
  | none => simp [text, hs]
  | some s => rfl

omit [Unicode] in
theorem notMem_authority (u : UrlParts) : '/' ∉ u.authority :=
  fun h => (u.authority_chars _ h).1 rfl

omit [Unicode] in
/-- Where the path or its slashes start the authority ends. -/
theorem body_eq (u : UrlParts) {n : ℕ} (h : u.path ≠ [] ∨ 0 < n) :
    ∃ y, u.path ++ List.replicate n '/' = '/' :: y ∧
      u.body n = u.authority ++ '/' :: (y ++ u.rest) := by
  have hslash : ∃ y, u.path ++ List.replicate n '/' = '/' :: y := by
    rcases u.path_head with hnil | ⟨p, hp⟩
    · obtain ⟨m, rfl⟩ : ∃ m, n = m + 1 := ⟨n - 1, by
        rcases h with h | h
        · exact absurd hnil h
        · omega⟩
      exact ⟨List.replicate m '/', by rw [hnil, List.nil_append, List.replicate_succ]⟩
    · exact ⟨p ++ List.replicate n '/', by rw [hp]; rfl⟩
  obtain ⟨y, hy⟩ := hslash
  refine ⟨y, hy, ?_⟩
  unfold body
  rw [hy]
  simp

end UrlParts

/-! ## The host and the port of a URL -/

theorem dropWhile_space_append {x : Text} {c : Char} (y : Text) (hc : Unicode.isSpace c = false) :
    (x ++ c :: y).dropWhile Unicode.isSpace = x.dropWhile Unicode.isSpace ++ c :: y := by
  induction x with
  | nil => simp [hc]
  | cons d x ih =>
    rw [List.cons_append, List.dropWhile_cons, List.dropWhile_cons, ih]
    split <;> rfl

theorem isSpace_slash : Unicode.isSpace '/' = false := by
  rw [Unicode.isSpace_ascii _ (by decide)]
  rfl

theorem isSpace_colon : Unicode.isSpace ':' = false := by
  rw [Unicode.isSpace_ascii _ (by decide)]
  rfl

/-- Trimming leaves what stands before the first slash apart from blanks in front. -/
theorem strip_slash (x y : Text) : Text.strip (x ++ '/' :: y) =
    x.dropWhile Unicode.isSpace ++ '/' :: y.rdropWhile Unicode.isSpace := by
  rw [Text.strip, dropWhile_space_append y isSpace_slash,
    Text.rdropWhile_append_cons _ _ isSpace_slash]

omit [Unicode] in
theorem hostPort_slash {a : Text} (ha : '/' ∉ a) (y : Text) :
    hostPort (a ++ '/' :: y) = hostPort a := by
  unfold hostPort
  rw [Text.before_append_cons ha, Text.before_of_notMem ha]

/-- Host, scheme and port are read of the scheme and the authority alone. -/
theorem reads_congr {t t' : Text}
    (hscheme : (Text.cut schemeSep (Text.strip t)).map Prod.fst =
      (Text.cut schemeSep (Text.strip t')).map Prod.fst)
    (hhost : hostPort (afterScheme (Text.strip t)) = hostPort (afterScheme (Text.strip t'))) :
    normalizeTarget t = normalizeTarget t' ∧ schemeAndPort t = schemeAndPort t' := by
  refine ⟨by simp only [normalizeTarget, hhost], ?_⟩
  rcases hc : Text.cut schemeSep (Text.strip t) with - | ⟨s, x⟩ <;>
    rcases hc' : Text.cut schemeSep (Text.strip t') with - | ⟨s', x'⟩
  · simp only [schemeAndPort, hhost, hc, hc']
  · simp [hc, hc'] at hscheme
  · simp [hc, hc'] at hscheme
  · obtain rfl : s = s' := by simpa [hc, hc'] using hscheme
    simp only [schemeAndPort, hhost, hc, hc']

namespace UrlParts

/-- What is read of a URL whose authority ends in a slash. -/
theorem strip_text (u : UrlParts) : ∃ scheme host, ∀ n, u.path ≠ [] ∨ 0 < n →
    (Text.cut schemeSep (Text.strip (u.text n))).map Prod.fst = scheme ∧
      hostPort (afterScheme (Text.strip (u.text n))) = host := by
  refine ⟨u.scheme.map (·.dropWhile Unicode.isSpace), ?_⟩
  cases hs : u.scheme with
  | none =>
    refine ⟨hostPort (u.authority.dropWhile Unicode.isSpace), fun n hn => ?_⟩
    obtain ⟨y, -, hbody⟩ := u.body_eq hn
    have htext : u.text n = u.body n := by simp [text, hs]
    have hinfix : Text.strip (u.text n) <:+: u.text n := by
      unfold Text.strip
      exact (List.rdropWhile_prefix _ _).isInfix.trans (List.dropWhile_suffix _).isInfix
    have hcut : Text.cut schemeSep (Text.strip (u.text n)) = none :=
      Text.cut_eq_none_iff.mpr fun h => u.bare_reads hs n (by
        rw [htext] at h hinfix
        exact h.trans hinfix)
    refine ⟨by rw [hcut]; rfl, ?_⟩
    rw [afterScheme, hcut]
    dsimp only
    rw [htext, hbody, strip_slash, hostPort_slash]
    exact fun h => u.notMem_authority ((List.dropWhile_suffix _).subset h)
  | some s =>
    refine ⟨hostPort u.authority, fun n hn => ?_⟩
    obtain ⟨y, -, hbody⟩ := u.body_eq hn
    have hstrip : Text.strip (u.text n) = s.dropWhile Unicode.isSpace ++ schemeSep ++
        (u.authority ++ '/' :: (y ++ u.rest).rdropWhile Unicode.isSpace) := by
      have htext : u.text n = (s ++ schemeSep ++ u.authority) ++ '/' :: (y ++ u.rest) := by
        simp [text, hs, hbody]
      rw [htext, strip_slash, List.append_assoc,
        show schemeSep ++ u.authority = ':' :: ("//".toList ++ u.authority) from rfl,
        dropWhile_space_append _ isSpace_colon]
      simp [schemeSep]
    have hcolon : ':' ∉ s.dropWhile Unicode.isSpace :=
      fun h => u.scheme_reads s hs ((List.dropWhile_suffix _).subset h)
    have hcut : Text.cut schemeSep (Text.strip (u.text n)) = some (s.dropWhile Unicode.isSpace,
        u.authority ++ '/' :: (y ++ u.rest).rdropWhile Unicode.isSpace) := by
      rw [hstrip]
      exact Text.cut_append hcolon _
    refine ⟨by rw [hcut]; rfl, ?_⟩
    rw [afterScheme, hcut]
    exact hostPort_slash u.notMem_authority _

/-- Slashes after a path change nothing about host, scheme and port. -/
theorem reads_text (u : UrlParts) {m n : ℕ} (hm : u.path ≠ [] ∨ 0 < m)
    (hn : u.path ≠ [] ∨ 0 < n) : normalizeTarget (u.text m) = normalizeTarget (u.text n) ∧
      schemeAndPort (u.text m) = schemeAndPort (u.text n) := by
  obtain ⟨scheme, host, h⟩ := u.strip_text
  exact reads_congr ((h m hm).1.trans (h n hn).1.symm) ((h m hm).2.trans (h n hn).2.symm)

/-- Of a trimmed text they are read as written. -/
theorem reads_trimmed (u : UrlParts) {m n : ℕ} (hrest : u.path = [] → u.rest = [])
    (hm : Text.strip (u.text m) = u.text m) (hn : Text.strip (u.text n) = u.text n) :
    normalizeTarget (u.text m) = normalizeTarget (u.text n) ∧
      schemeAndPort (u.text m) = schemeAndPort (u.text n) := by
  have hhost (k : ℕ) : hostPort (u.body k) = hostPort u.authority := by
    by_cases hk : u.path ≠ [] ∨ 0 < k
    · obtain ⟨y, -, hbody⟩ := u.body_eq hk
      rw [hbody, hostPort_slash u.notMem_authority]
    · obtain ⟨hpath, rfl⟩ : u.path = [] ∧ k = 0 := by
        rw [not_or, not_not] at hk
        exact ⟨hk.1, by omega⟩
      simp [body, hpath, hrest hpath]
  refine reads_congr ?_ ?_
  · rw [hm, hn, cut_text, cut_text, Option.map_map, Option.map_map]
    rfl
  · rw [hm, hn, afterScheme_text, afterScheme_text, hhost, hhost]

end UrlParts

/-! ## Comparing paths -/

theorem lower_slash (a b : Text) :
    Unicode.lower (a ++ '/' :: b) = Unicode.lower a ++ '/' :: Unicode.lower b :=
  Unicode.lower_boundary a '/' b (by decide)

theorem lower_slash_cons (b : Text) : Unicode.lower ('/' :: b) = '/' :: Unicode.lower b := by
  simpa using lower_slash [] b

omit [Unicode] in
theorem rdropWhile_eq_self {l : Text} (h : l.getLast? ≠ some '/') :
    l.rdropWhile (· == '/') = l := by
  refine List.rdropWhile_eq_self_iff.mpr fun hne hlast => h ?_
  rw [List.getLast?_eq_getLast_of_ne_nil hne, eq_of_beq hlast]

/-- Folding leaves a text that is not empty and ends in no slash. -/
theorem lower_open {p : Text} (hne : p ≠ []) (hopen : p.getLast? ≠ some '/') :
    Unicode.lower p ≠ [] ∧ (Unicode.lower p).getLast? ≠ some '/' :=
  ⟨fun h => hne (Unicode.lower_eq_nil p h),
    fun h => hopen (Unicode.lower_last_mark p '/' (by decide) h)⟩

/-- A path is empty, or a slash and a text that ends in none. -/
theorem pathOf_cases (target : Text) :
    pathOf target = [] ∨ ∃ p, pathOf target = '/' :: p ∧ p.getLast? ≠ some '/' := by
  unfold pathOf
  dsimp only
  split_ifs with h
  · refine .inr ⟨_, rfl, fun hlast => ?_⟩
    have hdrop := Unicode.lower_last_mark _ '/' (by decide) hlast
    obtain ⟨l, hl⟩ := List.getLast?_eq_some_iff.mp hdrop
    have hne : (Text.before '?' (Text.after '/' (afterScheme target))).rdropWhile (· == '/') ≠ [] := by
      simp [hl]
    exact List.rdropWhile_last_not _ _ hne (by simp [hl])
  · exact .inl rfl

omit [Unicode] in
theorem segments_cons {p : Text} (h : p ≠ []) : segments ('/' :: p) = Text.fields '/' p := by
  obtain ⟨c, l, rfl⟩ := List.exists_cons_of_ne_nil h
  rfl

omit [Unicode] in
/-- A path lies within one that is not the root when it is that path or goes on with a
slash. -/
theorem pathWithin_iff {t r : Text} (hne : r ≠ []) (hr : r.getLast? ≠ some '/') :
    pathWithin ('/' :: t) ('/' :: r) = true ↔ t = r ∨ ∃ x, t = r ++ '/' :: x := by
  have hopen : ¬ ['/'].isSuffixOf ('/' :: r) = true := by
    rw [List.isSuffixOf_iff_suffix]
    rintro ⟨x, hx⟩
    have hlast : ('/' :: r).getLast? = some '/' := by rw [← hx]; simp
    rw [List.getLast?_cons, List.getLast?_eq_getLast_of_ne_nil hne] at hlast
    rw [List.getLast?_eq_getLast_of_ne_nil hne] at hr
    exact hr (by simpa using hlast)
  rw [pathWithin, if_neg hopen, Bool.or_eq_true, beq_iff_eq, List.isPrefixOf_iff_prefix]
  refine or_congr (by simp) ⟨?_, ?_⟩
  · rintro ⟨x, hx⟩
    exact ⟨x, by simpa using hx.symm⟩
  · rintro ⟨x, rfl⟩
    exact ⟨x, by simp⟩

omit [Unicode] in
/-- A path within another one has its segments in front. -/
theorem segments_prefix_of_pathWithin {t r : Text} (hr : r.getLast? ≠ some '/')
    (h : pathWithin ('/' :: t) ('/' :: r) = true) :
    segments ('/' :: r) <+: segments ('/' :: t) := by
  rcases Decidable.eq_or_ne r [] with rfl | hne
  · exact List.nil_prefix
  rcases (pathWithin_iff hne hr).mp h with rfl | ⟨x, rfl⟩
  · exact List.prefix_rfl
  · rw [segments_cons hne, segments_cons (by simp), Text.fields_append_cons]
    exact List.prefix_append _ _

/-! ## Rules that name only a path -/

/-- A rule for a path on any host. -/
def pathRule (q : Text) : ScopeRule := ⟨schemeSep ++ '/' :: q ++ ['?'], "url", false⟩

theorem pathRule_text (q : Text) :
    (pathRule q).text = schemeSep ++ '/' :: Unicode.lower q ++ ['?'] := by
  have hstrip : Text.strip (pathRule q).value = (pathRule q).value := by
    refine Text.strip_eq_self (fun c hc => ?_) (fun c hc => ?_)
    · obtain rfl : ':' = c := by simpa [pathRule, schemeSep] using hc
      exact isSpace_colon
    · have hlast : (pathRule q).value.getLast? = some '?' := List.getLast?_concat ..
      obtain rfl : '?' = c := by simpa [hlast] using hc
      rw [Unicode.isSpace_ascii _ (by decide)]
      rfl
  have hcolon : Unicode.lower [':'] = [':'] := by
    rw [Unicode.lower_ascii _ (by simp [isAscii])]
    rfl
  have hval : (pathRule q).value = [':'] ++ '/' :: ('/' :: '/' :: (q ++ ['?'])) := by
    simp [pathRule, schemeSep]
  rw [ScopeRule.text, hstrip, hval, lower_slash, lower_slash_cons, lower_slash_cons, hcolon,
    Unicode.lower_concat_mark _ _ (by decide)]
  simp [schemeSep]

/-- Does the rule hold for the target, whatever it is classified as. -/
def ruleDecision (rule : ScopeRule) (target : Text) : Except Exn Bool :=
  match normalizeTarget target with
  | none => .ok false
  | some (kind, value) => ruleMatches rule kind value target

theorem cut_pathRule (q : Text) :
    Text.cut schemeSep (pathRule q).text = some ([], '/' :: (Unicode.lower q ++ ['?'])) := by
  rw [pathRule_text, List.append_assoc]
  exact Text.cut_append (List.not_mem_nil (a := ':')) _

theorem afterScheme_pathRule (q : Text) :
    afterScheme (pathRule q).text = '/' :: (Unicode.lower q ++ ['?']) := by
  rw [afterScheme, cut_pathRule]

theorem pathOf_pathRule {q : Text} (hquery : '?' ∉ q) (hopen : q.getLast? ≠ some '/') :
    pathOf (pathRule q).text = '/' :: Unicode.lower q := by
  have hlast : (Unicode.lower q).getLast? ≠ some '/' :=
    fun h => hopen (Unicode.lower_last_mark _ _ (by decide) h)
  have hmem : '?' ∉ Unicode.lower q := fun h => hquery ((Text.mem_lower_mark (by decide)).mp h)
  have hrest : Text.after '/' ('/' :: (Unicode.lower q ++ ['?'])) = Unicode.lower q ++ ['?'] :=
    Text.after_append_cons (List.not_mem_nil (a := '/')) _
  simp [pathOf, afterScheme_pathRule, hrest, Text.before_append_cons hmem, rdropWhile_eq_self hlast,
    Unicode.lower_lower]

/-- Such a rule compares paths and nothing else. -/
theorem ruleDecision_pathRule {q t : Text} (hquery : '?' ∉ q) (hopen : q.getLast? ≠ some '/')
    (hread : (normalizeTarget t).isSome) (hport : ∃ sp, schemeAndPort t = .ok sp) :
    ruleDecision (pathRule q) t = .ok (pathWithin (pathOf t) ('/' :: Unicode.lower q)) := by
  obtain ⟨⟨kind, value⟩, hnorm⟩ := Option.isSome_iff_exists.mp hread
  obtain ⟨⟨scheme, port⟩, hsp⟩ := hport
  have hstrip : Text.strip (pathRule q).text = (pathRule q).text := Text.strip_lower_strip _
  have hhost : hostPort ('/' :: (Unicode.lower q ++ ['?'])) = [] :=
    hostPort_slash (List.not_mem_nil (a := '/')) _
  have hrule : normalizeTarget (pathRule q).text = none := by
    simp [normalizeTarget, hstrip, afterScheme_pathRule, hhost, hostText, classify]
  have hrsp : schemeAndPort (pathRule q).text = .ok ([], none) := by
    simp [schemeAndPort, hstrip, afterScheme_pathRule, hhost, portText, cut_pathRule, defaultPort]
  have hne : (pathRule q).text.isEmpty = false := by simp [pathRule_text, schemeSep]
  rw [ruleDecision, hnorm]
  simp only [ruleMatches, hne, urlMatches, hrule, hrsp, hsp, pathOf_pathRule hquery hopen]
  simp [pathRule]
  rfl

/-! ## What the rules bound -/

/-- The kinds of rule that compare paths. -/
def comparesPaths (rule : ScopeRule) : Prop := rule.kind = "url" ∨ rule.kind = "api"

/-- What path-scoped rules are to do for a target: trailing slashes do not matter on either
side, and a rule that holds has its path at the front of the resolved one. -/
structure PathBound (u : UrlParts) : Prop where
  target_slash : ∀ rule, comparesPaths rule → ∀ m n,
    ruleDecision rule (u.text m) = ruleDecision rule (u.text n)
  rule_slash : ∀ rule rule' (r : UrlParts), comparesPaths rule → comparesPaths rule' →
    rule.text ≠ [] → rule'.text ≠ [] → (r.path = [] → r.rest = []) →
      ∀ m m', rule.text = r.text m → rule'.text = r.text m' →
        ∀ n, ruleDecision rule (u.text n) = ruleDecision rule' (u.text n)
  beneath : ∀ rule, comparesPaths rule → ∀ n, ruleDecision rule (u.text n) = .ok true →
    pathOf rule.text ≠ [] → segments (pathOf rule.text) <+: resolve u.pathSegments

/-- A target with a path that a client asks for as it is written: nothing is cut off it as a
fragment, and nothing is resolved. -/
structure UrlParts.Plain (u : UrlParts) : Prop where
  path : u.path ≠ []
  fragment : u.hasFragment = false
  segments : ∀ s ∈ u.pathSegments, isDotSegment s = false

/-- A target whose host and port are read, with no query straight after the host. -/
structure UrlParts.Readable (u : UrlParts) : Prop where
  rest : u.path = [] → u.rest = []
  target : (normalizeTarget (u.text 1)).isSome
  port : ∃ sp, schemeAndPort (u.text 1) = .ok sp

namespace UrlParts

omit [Unicode] in
/-- A path that is not empty, without its first slash. -/
theorem exists_path (u : UrlParts) (h : u.path ≠ []) :
    ∃ p, u.path = '/' :: p ∧ p ≠ [] ∧ p.getLast? ≠ some '/' ∧ '?' ∉ p := by
  obtain ⟨p, hp⟩ := u.path_head.resolve_left h
  have hopen := u.path_open
  have hne : p ≠ [] := by
    rintro rfl
    simp [hp] at hopen
  refine ⟨p, hp, hne, ?_, fun hq => u.path_chars.1 (hp ▸ List.mem_cons_of_mem _ hq)⟩
  rw [hp, List.getLast?_cons, List.getLast?_eq_getLast_of_ne_nil hne] at hopen
  rw [List.getLast?_eq_getLast_of_ne_nil hne]
  simpa using hopen

/-- What the evaluator takes for the path, from the first slash on. -/
theorem pathOf_text (u : UrlParts) {p : Text} (hp : u.path = '/' :: p) (n : ℕ) :
    pathOf (u.text n) = '/' :: Unicode.lower
      ((Text.before '?' (p ++ List.replicate n '/' ++ u.rest)).rdropWhile (· == '/')) := by
  have hbody : u.body n = u.authority ++ '/' :: (p ++ List.replicate n '/' ++ u.rest) := by
    simp [body, hp]
  simp [pathOf, afterScheme_text, hbody, Text.after_append_cons u.notMem_authority]

/-- Without a fragment the path is the whole path, whatever slashes end it. -/
theorem pathOf_text_plain (u : UrlParts) {p : Text} (hp : u.path = '/' :: p)
    (hopen : p.getLast? ≠ some '/') (hquery : '?' ∉ p) (hfrag : u.hasFragment = false) (n : ℕ) :
    pathOf (u.text n) = '/' :: Unicode.lower p := by
  have hmem : '?' ∉ p ++ List.replicate n '/' := by
    simp only [List.mem_append, List.mem_replicate, not_or, not_and]
    exact ⟨hquery, fun _ => by decide⟩
  have hbefore : Text.before '?' (p ++ List.replicate n '/' ++ u.rest) =
      p ++ List.replicate n '/' := by
    rcases u.rest_head with hrest | ⟨r, hrest | hrest⟩
    · rw [hrest, List.append_nil, Text.before_of_notMem hmem]
    · rw [hrest, Text.before_append_cons hmem]
    · simp [hasFragment, hrest] at hfrag
  rw [u.pathOf_text hp, hbefore,
    Text.rdropWhile_append_all (fun c hc => by simp [List.eq_of_mem_replicate hc]),
    rdropWhile_eq_self hopen]

theorem pathSegments_eq (u : UrlParts) {p : Text} (hp : u.path = '/' :: p) :
    u.pathSegments = segments ('/' :: Unicode.lower p) := by
  rw [pathSegments, hp, lower_slash_cons]

end UrlParts

/-! ## What a decision compares -/

/-- Everything but the paths. -/
def restMatches (ruleValue value rawTarget : Text) : Except Exn Bool := do
  if (normalizeTarget ruleValue).any fun p => p.2 != value then
    return false
  let (ruleScheme, rulePort) ← schemeAndPort ruleValue
  let (targetScheme, targetPort) ← schemeAndPort rawTarget
  return !(!ruleScheme.isEmpty && ruleScheme != targetScheme) &&
    !(rulePort.isSome && rulePort != targetPort)

/-- The rule path holds for the target path. -/
def pathMatches (rulePath targetPath : Text) : Bool :=
  rulePath.isEmpty || pathWithin targetPath rulePath

/-- The paths are compared last, by every rule that has one. -/
theorem urlMatches_eq (ruleValue value rawTarget : Text) : urlMatches ruleValue value rawTarget =
    (restMatches ruleValue value rawTarget).map
      (· && pathMatches (pathOf ruleValue) (pathOf rawTarget)) := by
  unfold urlMatches restMatches
  by_cases hhost : (normalizeTarget ruleValue).any fun p => p.2 != value
  · simp [hhost, Except.map, pure, Except.pure]
  rcases hr : schemeAndPort ruleValue with e | ⟨rs, rp⟩
  · simp [hhost, Except.map, bind, Except.bind]
  rcases ht : schemeAndPort rawTarget with e | ⟨ts, tp⟩
  · simp [hhost, Except.map, bind, Except.bind]
  simp only [hhost, pathMatches, Except.map, bind, Except.bind, pure, Except.pure,
    Bool.false_eq_true, if_false]
  by_cases hs : (!rs.isEmpty && rs != ts) = true
  · simp only [hs, if_true, Bool.not_true, Bool.false_and]
  by_cases hp : (rp.isSome && rp != tp) = true
  · simp only [hs, hp, if_true, Bool.not_true, Bool.and_false, Bool.false_and, if_false,
      Bool.false_eq_true]
  · simp only [hs, hp, Bool.not_false, Bool.true_and, if_false, Bool.false_eq_true]
    split_ifs with hpath <;> simp [hpath]

/-- A rule that compares paths is read of its text. -/
theorem ruleDecision_eq {rule : ScopeRule} (hrule : comparesPaths rule) (t : Text) :
    ruleDecision rule t = match normalizeTarget t with
      | none => .ok false
      | some (_, value) => if rule.text.isEmpty then .ok false else
        (restMatches rule.text value t).map (· && pathMatches (pathOf rule.text) (pathOf t)) := by
  unfold ruleDecision
  rcases normalizeTarget t with - | ⟨kind, value⟩
  · rfl
  · rcases hrule with h | h <;> simp [ruleMatches, h, urlMatches_eq]

/-- What a rule is compared with: host, scheme, port and path of the target. -/
theorem ruleDecision_congr {rule rule' : ScopeRule} {t t' : Text} (hrule : comparesPaths rule)
    (hrule' : comparesPaths rule') (htarget : normalizeTarget t = normalizeTarget t' ∧
      schemeAndPort t = schemeAndPort t')
    (hread : normalizeTarget rule.text = normalizeTarget rule'.text ∧
      schemeAndPort rule.text = schemeAndPort rule'.text)
    (hempty : rule.text = [] ↔ rule'.text = [])
    (hpath : pathMatches (pathOf rule.text) (pathOf t) =
      pathMatches (pathOf rule'.text) (pathOf t')) :
    ruleDecision rule t = ruleDecision rule' t' := by
  have hblank : rule.text.isEmpty = rule'.text.isEmpty := by
    rw [Bool.eq_iff_iff, List.isEmpty_iff, List.isEmpty_iff, hempty]
  simp only [ruleDecision_eq hrule, ruleDecision_eq hrule', restMatches, htarget.1, htarget.2,
    hread.1, hread.2, hblank, hpath]

/-- A rule that holds compares its path, if it has one, with the target's. -/
theorem pathMatches_of_ruleDecision {rule : ScopeRule} (hrule : comparesPaths rule) {t : Text}
    (h : ruleDecision rule t = .ok true) : pathMatches (pathOf rule.text) (pathOf t) = true := by
  rw [ruleDecision_eq hrule] at h
  rcases hnorm : normalizeTarget t with - | ⟨kind, value⟩
  · simp [hnorm] at h
  rw [hnorm] at h
  dsimp only at h
  split_ifs at h
  · simp at h
  rcases hrest : restMatches rule.text value t with e | b
  · simp [hrest, Except.map] at h
  · simp only [hrest, Except.map, Except.ok.injEq, Bool.and_eq_true] at h
    exact h.2

omit [Unicode] in
/-- The root lies above every path. -/
theorem pathMatches_root (p : Text) : pathMatches ['/'] ('/' :: p) = true := by
  simp [pathMatches, pathWithin]

namespace UrlParts

/-- A fragment is read as a part of the path, after the slashes. -/
theorem pathOf_text_fragment (u : UrlParts) {p r : Text} (hp : u.path = '/' :: p)
    (hquery : '?' ∉ p) (hrest : u.rest = '#' :: r) : ∃ y, ∀ n,
      pathOf (u.text n) = '/' :: (Unicode.lower (p ++ List.replicate n '/') ++ '#' :: y) := by
  refine ⟨Unicode.lower ((Text.before '?' r).rdropWhile (· == '/')), fun n => ?_⟩
  have hslashes : ∀ c ∈ p ++ List.replicate n '/', (c != '?') = true := by
    intro c hc
    have hne : c ≠ '?' := by
      rintro rfl
      rcases List.mem_append.mp hc with hc | hc
      · exact hquery hc
      · exact absurd (List.eq_of_mem_replicate hc) (by decide)
    simpa using hne
  have hbefore : Text.before '?' (p ++ List.replicate n '/' ++ u.rest) =
      p ++ List.replicate n '/' ++ '#' :: Text.before '?' r := by
    rw [hrest, Text.before, List.takeWhile_append_of_pos hslashes]
    simp [Text.before]
  rw [u.pathOf_text hp, hbefore, Text.rdropWhile_append_cons _ _ (by decide),
    Unicode.lower_boundary _ _ _ (by decide)]

omit [Unicode] in
theorem hasFragment_iff (u : UrlParts) : u.hasFragment = true ↔ ∃ r, u.rest = '#' :: r := by
  unfold hasFragment
  rcases u.rest with - | ⟨c, r⟩ <;> simp

/-- What a rule path does to a plain target does not depend on its trailing slashes. -/
theorem pathMatches_text (r : UrlParts) (hrest : r.path = [] → r.rest = []) {p : Text}
    (hp : '#' ∉ p) (m m' : ℕ) :
    pathMatches (pathOf (r.text m)) ('/' :: p) = pathMatches (pathOf (r.text m')) ('/' :: p) := by
  rcases Decidable.eq_or_ne r.path [] with hpath | hpath
  · -- without a path the rule holds everywhere, with a slash below the root
    have hroot (k : ℕ) : pathMatches (pathOf (r.text k)) ('/' :: p) = true := by
      rcases Nat.eq_zero_or_pos k with rfl | hk
      · have hno : pathOf (r.text 0) = [] := by
          simp [pathOf, afterScheme_text, body, hpath, hrest hpath, r.notMem_authority]
        rw [hno]
        rfl
      · obtain ⟨k, rfl⟩ : ∃ j, k = j + 1 := ⟨k - 1, by omega⟩
        have hslash : pathOf (r.text (k + 1)) = ['/'] := by
          have hbody : r.body (k + 1) = r.authority ++ '/' :: List.replicate k '/' := by
            simp [body, hpath, hrest hpath, List.replicate_succ]
          have hquery : '?' ∉ List.replicate k '/' :=
            fun h => absurd (List.eq_of_mem_replicate h) (by decide)
          have hdrop : (List.replicate k '/').rdropWhile (· == '/') = [] :=
            List.rdropWhile_eq_nil_iff.mpr fun c hc => by rw [List.eq_of_mem_replicate hc]; rfl
          simp [pathOf, afterScheme_text, hbody, Text.after_append_cons r.notMem_authority,
            Text.before_of_notMem hquery, hdrop]
        rw [hslash, pathMatches_root]
    rw [hroot, hroot]
  obtain ⟨q, hq, -, hopen, hquery⟩ := r.exists_path hpath
  by_cases hfrag : r.hasFragment = true
  · -- no plain path holds the fragment
    obtain ⟨x, hx⟩ := r.hasFragment_iff.mp hfrag
    obtain ⟨y, hy⟩ := r.pathOf_text_fragment hq hquery hx
    have hmiss (k : ℕ) : pathMatches (pathOf (r.text k)) ('/' :: p) = false := by
      rw [Bool.eq_false_iff]
      intro hmatch
      have hmem : '#' ∈ '/' :: p := by
        simp only [pathMatches, hy, List.isEmpty_cons, Bool.false_or, pathWithin, Bool.or_eq_true,
          beq_iff_eq] at hmatch
        rcases hmatch with heq | hpre
        · rw [heq]
          simp
        · have hsub := (List.isPrefixOf_iff_prefix.mp hpre).subset
          refine hsub ?_
          split_ifs <;> simp
      simp at hmem
      exact hp hmem
    rw [hmiss, hmiss]
  · rw [Bool.not_eq_true] at hfrag
    rw [r.pathOf_text_plain hq hopen hquery hfrag, r.pathOf_text_plain hq hopen hquery hfrag]

/-- For a plain target the rules bound the path. -/
theorem Plain.pathBound {u : UrlParts} (h : u.Plain) : PathBound u := by
  obtain ⟨p, hp, hne, hopen, hquery⟩ := u.exists_path h.path
  have hpath := u.pathOf_text_plain hp hopen hquery h.fragment
  have hreads (m n : ℕ) := u.reads_text (m := m) (n := n) (.inl h.path) (.inl h.path)
  have hhash : '#' ∉ Unicode.lower p := fun hmem =>
    u.path_chars.2 (hp ▸ List.mem_cons_of_mem _ ((Text.mem_lower_mark (by decide)).mp hmem))
  refine ⟨fun rule hrule m n => ?_,
    fun rule rule' r hrule hrule' hne hne' hrest m m' hm hm' n => ?_,
    fun rule hrule n hmatch hrpath => ?_⟩
  · refine ruleDecision_congr hrule hrule (hreads m n) ⟨rfl, rfl⟩ Iff.rfl ?_
    rw [hpath, hpath]
  · have hstrip : Text.strip rule.text = rule.text := Text.strip_lower_strip _
    have hstrip' : Text.strip rule'.text = rule'.text := Text.strip_lower_strip _
    rw [hm] at hstrip
    rw [hm'] at hstrip'
    have hrule_reads := r.reads_trimmed hrest hstrip hstrip'
    refine ruleDecision_congr hrule hrule' ⟨rfl, rfl⟩ (by rwa [hm, hm'])
      (iff_of_false hne hne') ?_
    rw [hpath, hm, hm', r.pathMatches_text hrest hhash m m']
  · have hwithin := pathMatches_of_ruleDecision hrule hmatch
    obtain ⟨q, hq, hqopen⟩ := (pathOf_cases rule.text).resolve_left hrpath
    rw [hpath, hq] at hwithin
    rw [hq, resolve_eq_self h.segments, u.pathSegments_eq hp]
    exact segments_prefix_of_pathWithin hqopen (by simpa [pathMatches] using hwithin)

/-- What a rule for a path alone decides of a readable target with a path or a slash. -/
theorem Readable.ruleDecision {u : UrlParts} (h : u.Readable) {q : Text} (hquery : '?' ∉ q)
    (hopen : q.getLast? ≠ some '/') {n : ℕ} (hn : u.path ≠ [] ∨ 0 < n) :
    Policy.ruleDecision (pathRule q) (u.text n) =
      .ok (pathWithin (pathOf (u.text n)) ('/' :: Unicode.lower q)) := by
  obtain ⟨hnorm, hport⟩ := u.reads_text hn (.inr Nat.one_pos)
  exact ruleDecision_pathRule hquery hopen (hnorm ▸ h.target) (hport ▸ h.port)

/-- Where the rules bound the path there is one: the root rule holds for a target with a
slash after the host and for no target without. -/
theorem Readable.path_ne_nil {u : UrlParts} (h : u.Readable) (hbound : PathBound u) :
    u.path ≠ [] := by
  intro hpath
  obtain ⟨y, -, hbody⟩ := u.body_eq (.inr Nat.one_pos)
  have hslash : ∃ p, pathOf (u.text 1) = '/' :: p := by
    simp [pathOf, afterScheme_text, hbody]
  obtain ⟨p, hp⟩ := hslash
  have hone := h.ruleDecision (List.not_mem_nil (a := '?')) (by simp) (.inr Nat.one_pos)
  have hin : pathWithin ('/' :: p) ('/' :: Unicode.lower []) = true := by simp [pathWithin]
  rw [hp, hin, ← hbound.target_slash _ (.inl rfl) 0 1] at hone
  have hempty : pathOf (u.text 0) = [] := by
    simp [pathOf, afterScheme_text, body, hpath, h.rest hpath, u.notMem_authority]
  have hzero := pathMatches_of_ruleDecision (.inl rfl) hone
  rw [hempty, pathOf_pathRule List.not_mem_nil (by simp)] at hzero
  simp [pathMatches, pathWithin] at hzero

/-- Where the rules bound the path no fragment follows it: the rule for the path holds
only when a slash comes in between. -/
theorem Readable.fragment {u : UrlParts} (h : u.Readable) (hbound : PathBound u) :
    u.hasFragment = false := by
  have hne := h.path_ne_nil hbound
  obtain ⟨p, hp, hpne, hopen, hquery⟩ := u.exists_path hne
  rw [Bool.eq_false_iff]
  intro hfrag
  obtain ⟨r, hr⟩ := u.hasFragment_iff.mp hfrag
  obtain ⟨y, hy⟩ := u.pathOf_text_fragment hp hquery hr
  have hslash := hbound.target_slash (pathRule p) (.inl rfl) 0 1
  obtain ⟨hlne, hlopen⟩ := lower_open hpne hopen
  rw [h.ruleDecision hquery hopen (.inl hne), h.ruleDecision hquery hopen (.inl hne), hy, hy,
    Except.ok.injEq, Bool.eq_iff_iff, pathWithin_iff hlne hlopen, pathWithin_iff hlne hlopen]
    at hslash
  have hone : Unicode.lower (p ++ List.replicate 1 '/') = Unicode.lower p ++ ['/'] :=
    Unicode.lower_concat_mark p '/' (by decide)
  rw [hone] at hslash
  rcases hslash.mpr (.inr ⟨'#' :: y, by simp⟩) with heq | ⟨x, hx⟩
  · simp at heq
  · simp at hx

/-- Where the rules bound the path it has no dot segments: the rule for what ends in the
first one holds for the target as it is written. -/
theorem Readable.segments {u : UrlParts} (h : u.Readable) (hbound : PathBound u) :
    ∀ s ∈ u.pathSegments, isDotSegment s = false := by
  have hne := h.path_ne_nil hbound
  obtain ⟨p, hp, hpne, hopen, hquery⟩ := u.exists_path hne
  intro s hs
  have hfolded := (lower_open hpne hopen).1
  rw [u.pathSegments_eq hp, segments_cons hfolded, Text.fields_lower (by decide)] at hs
  obtain ⟨s₀, hs₀, rfl⟩ := List.mem_map.mp hs
  rcases Decidable.eq_or_ne s₀ [] with rfl | hsne
  · rw [Text.lower_nil]
    rfl
  obtain ⟨q, hq, hsq, hqopen⟩ := Text.exists_prefix_of_mem_fields hs₀ hsne
  have hqne : q ≠ [] := by
    rintro rfl
    exact hsne (by simpa [Text.fields] using hsq)
  have hqquery : '?' ∉ q := by
    intro hmem
    rcases hq with rfl | ⟨r, rfl⟩
    · exact hquery hmem
    · exact hquery (List.mem_append_left _ hmem)
  obtain ⟨hlne, hlopen⟩ := lower_open hqne hqopen
  have hdecision := h.ruleDecision (n := 0) hqquery hqopen (.inl hne)
  have hin : pathWithin ('/' :: Unicode.lower p) ('/' :: Unicode.lower q) = true := by
    rw [pathWithin_iff hlne hlopen]
    rcases hq with rfl | ⟨r, rfl⟩
    · exact .inl rfl
    · exact .inr ⟨_, lower_slash q r⟩
  rw [u.pathOf_text_plain hp hopen hquery (h.fragment hbound), hin] at hdecision
  have hpath := pathOf_pathRule hqquery hqopen
  have hbeneath := hbound.beneath (pathRule q) (.inl rfl) 0 hdecision (by rw [hpath]; simp)
  rw [hpath, segments_cons hlne, Text.fields_lower (by decide)] at hbeneath
  exact isDotSegment_of_mem_resolve (hbeneath.subset (List.mem_map_of_mem hsq))

end UrlParts

/-- A URL with an administration path, as it stands. -/
def adminTarget : UrlParts where
  scheme := some "https".toList
  authority := "h.example.com".toList
  path := "/v1/Admin".toList
  rest := []
  authority_chars := List.forall_iff_forall_mem.mp (by decide)
  path_head := .inr ⟨"v1/Admin".toList, rfl⟩
  path_chars := by decide
  path_open := by decide
  rest_head := .inl rfl
  scheme_reads := by decide
  bare_reads := by simp

end VardrMap.Policy
