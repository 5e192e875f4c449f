import VardrMap.Authority
import VardrMap.Policy.Inclusion

/-!
# The host that was decided and the host that is signed

The evaluator reads a URL with its own splitter and the projection reads it again with
`urlsplit`. On a URL with one plain authority both see the same host-and-port text;
`sameHost_iff` says what that text must look like for the decision and the signed origin
to name the same host and port.
-/
namespace VardrMap
open Lib Policy

variable [Unicode]

/-- The decision's host and port, and those of the signed entry, for one dispatch. -/
def SameHost (dispatch entry : Json) : Prop :=
  ∃ request url kind host port scheme parsed written,
    dispatch.item "request" = .ok request ∧ request.item "url" = .ok (.str url) ∧
    normalizeTarget url.toList = some (kind, host) ∧
    schemeAndPort url.toList = .ok (scheme, some port) ∧
    Url.urlsplit url.toList = .ok parsed ∧ parsed.port = .ok written ∧
    parsed.hostname = some host ∧ effectivePort parsed.scheme written = port ∧
    entry.item "origin" = .ok (.str (originText parsed.scheme host port))

/-- A URL with one plain authority: blanks, a scheme, at most one `@` in an authority
without delimiters, and then a path or nothing visible. -/
structure PlainUrl (url scheme info : Text) : Prop where
  scheme_head : scheme.head?.any Char.isAlpha = true
  scheme_chars : scheme.all Url.schemeChar = true
  split : ∃ lead user rest, url = lead ++ scheme ++ schemeSep ++ (user ++ info) ++ rest ∧
    (∀ c ∈ lead, asciiSpace c = true) ∧
    (user = [] ∨ ∃ u, '@' ∉ u ∧ user = u ++ ['@']) ∧
    (∀ c ∈ user ++ info, Url.endsAuthority c = false ∧ Url.isUnsafe c = false) ∧
    (rest.head? = some '/' ∨
      (∀ c ∈ rest, Url.isUnsafe c = true) ∧ ∀ c ∈ info.getLast?, Unicode.isSpace c = false)
  info_at : '@' ∉ info

/-- The host-and-port text reads alike on both sides: no trailing dot, no zone that case
folding changes, no port zero, and a written port unless the scheme has a default. -/
def ReadsAlike (scheme info : Text) : Prop :=
  let (host, port) := Url.hostinfo info
  host.getLast? ≠ some '.' ∧ Unicode.lower (Text.after '%' host) = Text.after '%' host ∧
    (port ≠ [] → Text.toInt? port ≠ some 0) ∧
    (port = [] → scheme.map Char.toLower = "https".toList ∨ scheme.map Char.toLower = "http".toList)

/-! ## Both readers on a plain URL -/

theorem head_scheme {url scheme info : Text} (h : PlainUrl url scheme info) :
    ∃ c cs, scheme = c :: cs ∧ Url.schemeChar c = true := by
  have hh := h.scheme_head
  have hc := h.scheme_chars
  cases scheme with
  | nil => simp at hh
  | cons c cs => exact ⟨c, cs, rfl, (List.all_eq_true.mp hc) c List.mem_cons_self⟩

/-- The evaluator's reader finds the scheme and the host-and-port text. -/
theorem plain_hostPort {url scheme info : Text} (h : PlainUrl url scheme info) :
    ∃ remainder, Text.cut schemeSep (Text.strip url) = some (scheme, remainder) ∧
      hostPort remainder = info := by
  obtain ⟨c, cs, hcons, hc⟩ := head_scheme h
  obtain ⟨lead, user, rest, hurl, hlead, huser, hauth, hrest⟩ := h.split
  obtain ⟨tail, hstrip, htail⟩ : ∃ tail, Text.strip url =
      scheme ++ schemeSep ++ ((user ++ info) ++ tail) ∧ (tail = [] ∨ tail.head? = some '/') := by
    have hdrop : url.dropWhile Unicode.isSpace =
        scheme ++ schemeSep ++ (user ++ info) ++ rest := by
      have hspace : ∀ x ∈ lead, Unicode.isSpace x = true := fun x hx => by
        rw [Unicode.isSpace_ascii x (Url.asciiSpace_isC0 (hlead x hx)).1]
        exact hlead x hx
      have hcs : Unicode.isSpace c = false := by
        rw [Unicode.isSpace_ascii c (Url.schemeChar_spec hc).1]
        exact (Url.schemeChar_spec hc).2.2.2.1
      rw [hurl]
      simp only [List.append_assoc]
      rw [List.dropWhile_append_of_pos hspace, hcons]
      simp [hcs]
    rw [Text.strip, hdrop]
    rcases hrest with hslash | ⟨hstripped, hlast⟩
    · obtain ⟨r, rfl⟩ := List.head?_eq_some_iff.mp hslash
      have hns : Unicode.isSpace '/' = false := by
        rw [Unicode.isSpace_ascii _ (by decide)]
        decide
      refine ⟨'/' :: r.rdropWhile Unicode.isSpace, ?_, .inr rfl⟩
      rw [Text.rdropWhile_append_cons _ _ hns]
      simp
    · refine ⟨[], ?_, .inl rfl⟩
      have hspace : ∀ x ∈ rest, Unicode.isSpace x = true := fun x hx => by
        obtain ⟨ha, hs⟩ := Url.isUnsafe_asciiSpace (hstripped x hx)
        rw [Unicode.isSpace_ascii x ha]
        exact hs
      rw [Text.rdropWhile_append_all hspace, List.append_nil]
      have hkeep : ∀ x ∈ (scheme ++ schemeSep ++ (user ++ info)).getLast?,
          Unicode.isSpace x = false := by
        intro x hx
        rw [List.getLast?_append, List.getLast?_append] at hx
        cases hi : info.getLast? with
        | some y =>
          obtain rfl : y = x := by simpa [hi] using hx
          exact hlast y hi
        | none =>
          have hx' : x = '@' ∨ x = '/' := by
            rcases huser with rfl | ⟨u, -, rfl⟩
            · right
              simpa [hi, schemeSep, eq_comm] using hx
            · left
              simpa [hi, eq_comm] using hx
          rcases hx' with rfl | rfl <;>
            · rw [Unicode.isSpace_ascii _ (by decide)]
              decide
      generalize scheme ++ schemeSep ++ (user ++ info) = core at hkeep ⊢
      refine List.rdropWhile_eq_self_iff.mpr fun hne => ?_
      have := hkeep _ (List.getLast?_eq_getLast_of_ne_nil hne)
      simp [this]
  have hcolon : ':' ∉ scheme := fun hm =>
    (Url.schemeChar_spec (List.all_eq_true.mp h.scheme_chars _ hm)).2.1 rfl
  have hcut : Text.cut schemeSep (Text.strip url) = some (scheme, (user ++ info) ++ tail) := by
    rw [hstrip]
    exact Text.cut_append hcolon _
  have hslash : '/' ∉ user ++ info := fun hm => by
    have := (hauth _ hm).1
    exact absurd this (by decide)
  have hbefore : Text.before '/' ((user ++ info) ++ tail) = user ++ info := by
    rcases htail with rfl | ht
    · rw [List.append_nil]
      exact Text.before_of_notMem hslash
    · obtain ⟨t, rfl⟩ := List.head?_eq_some_iff.mp ht
      exact Text.before_append_cons hslash t
  refine ⟨_, hcut, ?_⟩
  rw [hostPort, hbefore]
  rcases huser with rfl | ⟨u, hu, rfl⟩
  · simp [h.info_at]
  · have hafter : Text.after '@' (u ++ '@' :: info) = info := Text.after_append_cons hu info
    simp [hafter]

/-- `urlsplit` finds the same scheme and the same host-and-port text. -/
theorem plain_urlsplit {url scheme info : Text} {parsed : SplitUrl} (h : PlainUrl url scheme info)
    (hs : Url.urlsplit url = .ok parsed) :
    parsed.scheme = scheme.map Char.toLower ∧ Text.afterLast '@' parsed.netloc = info ∧
      (info.contains '[' = true → Url.bracketedNetloc parsed.netloc = true) := by
  obtain ⟨c, cs, hcons, hc⟩ := head_scheme h
  obtain ⟨lead, user, rest, hurl, hlead, huser, hauth, hrest⟩ := h.split
  have hsep : ∀ x ∈ schemeSep, (!Url.isUnsafe x) = true := List.all_eq_true.mp (by decide)
  have hsafe : ∀ x ∈ scheme ++ schemeSep ++ (user ++ info), (!Url.isUnsafe x) = true := by
    intro x hx
    rcases List.mem_append.mp hx with hx | hx
    · rcases List.mem_append.mp hx with hx | hx
      · simp [(Url.schemeChar_spec (List.all_eq_true.mp h.scheme_chars x hx)).2.2.1]
      · exact hsep x hx
    · simp [(hauth x hx).2]
  obtain ⟨tail, hclean, htail⟩ : ∃ tail,
      (url.dropWhile Url.isC0OrSpace).filter (fun x => !Url.isUnsafe x) =
        scheme ++ ':' :: '/' :: '/' :: ((user ++ info) ++ tail) ∧
      (tail = [] ∨ tail.head? = some '/') := by
    have hdrop : url.dropWhile Url.isC0OrSpace = scheme ++ schemeSep ++ (user ++ info) ++ rest := by
      have hC0 : ∀ x ∈ lead, Url.isC0OrSpace x = true := fun x hx =>
        (Url.asciiSpace_isC0 (hlead x hx)).2
      have hcs := (Url.schemeChar_spec hc).2.2.2.2
      rw [hurl]
      simp only [List.append_assoc]
      rw [List.dropWhile_append_of_pos hC0, hcons]
      simp [hcs]
    refine ⟨rest.filter fun x => !Url.isUnsafe x, ?_, ?_⟩
    · rw [hdrop, List.filter_append, List.filter_eq_self.mpr hsafe]
      simp [schemeSep]
    · rcases hrest with hslash | ⟨hstripped, -⟩
      · obtain ⟨r, rfl⟩ := List.head?_eq_some_iff.mp hslash
        right
        simp [Url.isUnsafe]
      · left
        exact List.filter_eq_nil_iff.mpr fun x hx => by simp [hstripped x hx]
  have hcolon : ':' ∉ scheme := fun hm =>
    (Url.schemeChar_spec (List.all_eq_true.mp h.scheme_chars _ hm)).2.1 rfl
  have hscheme : Url.scheme? (scheme ++ ':' :: '/' :: '/' :: ((user ++ info) ++ tail)) =
      some (scheme.map Char.toLower, '/' :: '/' :: ((user ++ info) ++ tail)) := by
    rw [Url.scheme?, Text.before_append_cons hcolon, Text.after_append_cons hcolon]
    simp [h.scheme_head, h.scheme_chars]
  have hnetloc : ((user ++ info) ++ tail).takeWhile (fun x => !Url.endsAuthority x) =
      user ++ info := by
    have hall : ∀ x ∈ user ++ info, (!Url.endsAuthority x) = true := fun x hx => by
      simp [(hauth x hx).1]
    rw [List.takeWhile_append_of_pos hall]
    rcases htail with rfl | ht
    · simp
    · obtain ⟨t, rfl⟩ := List.head?_eq_some_iff.mp ht
      simp [Url.endsAuthority]
  have hat : Text.afterLast '@' (user ++ info) = info := by
    rcases huser with rfl | ⟨u, -, rfl⟩
    · exact Text.afterLast_of_notMem h.info_at
    · rw [List.append_assoc]
      exact Text.afterLast_append_cons u h.info_at
  simp only [Url.urlsplit, hclean, hscheme, Option.getD_some, hnetloc] at hs
  split at hs
  · simp at hs
  split at hs
  · simp at hs
  rename_i hbracket
  split at hs
  · simp at hs
  obtain rfl := Except.ok.inj hs
  refine ⟨rfl, hat, fun hopen => ?_⟩
  have hmem : (user ++ info).contains '[' = true := by
    simp only [List.contains_eq_mem, decide_eq_true_eq] at hopen ⊢
    exact List.mem_append_right _ hopen
  rw [hmem] at hbracket
  simpa [Url.tailParts] using hbracket

/-! ## The host-and-port text on both sides -/

omit [Unicode] in
theorem hostText_of_plain {info : Text} (h : '[' ∉ info) :
    hostText info = if info.count ':' == 1 then some (Text.before ':' info) else some info := by
  cases info with
  | nil => rfl
  | cons c cs =>
    have hc : c ≠ '[' := fun hc => h (hc ▸ List.mem_cons_self)
    simp [hostText, hc]

omit [Unicode] in
theorem portText_of_plain {info : Text} (h : '[' ∉ info) :
    portText info = if info.count ':' == 1 then some (Text.after ':' info) else none := by
  cases info with
  | nil => rfl
  | cons c cs =>
    have hc : c ≠ '[' := fun hc => h (hc ▸ List.mem_cons_self)
    simp [portText, hc]

omit [Unicode] in
/-- When `urlsplit` accepts the authority and the evaluator finds a host in it, the two
readers take the same host text and the same port text. -/
theorem hostinfo_eq {info netloc host : Text} (hat : Text.afterLast '@' netloc = info)
    (hbracket : info.contains '[' = true → Url.bracketedNetloc netloc = true)
    (hdigits : (Url.hostinfo info).2.all Char.isDigit = true) (hinfo : '@' ∉ info)
    (hhost : hostText info = some host) :
    (Url.hostinfo info).1 = host ∧ (Url.hostinfo info).2 = (portText info).getD [] := by
  have hself : Text.afterLast '@' info = info := Text.afterLast_of_notMem hinfo
  by_cases hopen : '[' ∈ info
  · -- a bracketed host opens the text, and only a port follows the bracket
    have hb := hbracket (by simpa using hopen)
    simp only [Url.bracketedNetloc, hat, List.contains_eq_mem, hopen, decide_true, if_true,
      Bool.and_eq_true, List.isEmpty_iff, Bool.or_eq_true, beq_iff_eq] at hb
    obtain ⟨⟨hfirst, hrest⟩, -⟩ := hb
    have hsplit := Text.before_append_after hopen
    rw [hfirst, List.nil_append] at hsplit
    rw [← hsplit] at hhost
    simp only [hostText] at hhost
    split at hhost
    swap
    · simp at hhost
    rename_i hclose
    have hport : portText info = if (Text.after ']' (Text.after '[' info)).head? == some ':' then
        some (Text.after ']' (Text.after '[' info)).tail else none := by
      conv_lhs => rw [← hsplit]
      simp only [portText, hclose, Bool.true_and]
    simp only [Url.hostinfo, hself, List.contains_eq_mem, hopen, decide_true, if_true]
    refine ⟨Option.some.inj hhost, ?_⟩
    rw [hport]
    rcases hrest with hnil | hcolon
    · rw [hnil]
      rfl
    · obtain ⟨t, ht⟩ := List.head?_eq_some_iff.mp hcolon
      have hafter : Text.after ':' (':' :: t) = t := by simp [Text.after]
      rw [ht, hafter]
      simp
  · have hcount : info.count ':' ≤ 1 := by
      by_contra hmany
      have hmem : ':' ∈ info := List.count_pos_iff.mp (by omega)
      have hagain : ':' ∈ Text.after ':' info := by
        have := Text.before_append_after hmem
        have hzero := List.count_eq_zero_of_not_mem (Text.notMem_before ':' info)
        refine List.count_pos_iff.mp ?_
        have hc : info.count ':' = (Text.before ':' info).count ':' +
            ((Text.after ':' info).count ':' + 1) := by
          conv_lhs => rw [← this, List.count_append, List.count_cons_self]
        omega
      simp only [Url.hostinfo, hself, List.contains_eq_mem, hopen, decide_false,
        Bool.false_eq_true, if_false, List.all_eq_true] at hdigits
      exact absurd (hdigits ':' hagain) (by decide)
    have hhost' := hhost
    rw [hostText_of_plain hopen] at hhost'
    have hport := portText_of_plain hopen
    simp only [Url.hostinfo, hself, List.contains_eq_mem, hopen, decide_false,
      Bool.false_eq_true, if_false]
    rw [hport]
    by_cases hone : info.count ':' = 1
    · simp only [hone, beq_self_eq_true, if_true, Option.some.injEq] at hhost' ⊢
      exact ⟨hhost', rfl⟩
    · have hnone : ':' ∉ info := fun hm => by
        have := List.count_pos_iff.mpr hm
        omega
      simp only [hone, beq_iff_eq, if_false, Option.some.injEq] at hhost' ⊢
      refine ⟨(Text.before_of_notMem hnone).trans hhost', ?_⟩
      have hall : ∀ x ∈ info, (x != ':') = true := fun x hx => by
        have : x ≠ ':' := fun hxc => hnone (hxc ▸ hx)
        simpa using this
      simp [Text.after, List.dropWhile_eq_nil_iff.mpr hall]

/-- Dropping trailing dots and folding all of the host agrees with folding it up to its
zone exactly when there are no trailing dots and folding leaves the zone alone. -/
theorem hosts_agree_iff (host : Text) :
    Unicode.lower (host.rdropWhile (· == '.')) =
      (if host.contains '%' then
        Unicode.lower (Text.before '%' host) ++ '%' :: Text.after '%' host
      else Unicode.lower host) ↔
    host.getLast? ≠ some '.' ∧ Unicode.lower (Text.after '%' host) = Text.after '%' host := by
  have hkeep : host.getLast? ≠ some '.' → host.rdropWhile (· == '.') = host := by
    intro hlast
    refine List.rdropWhile_eq_self_iff.mpr fun hne hdot => hlast ?_
    rw [List.getLast?_eq_getLast_of_ne_nil hne]
    simpa using hdot
  have hpercent : '%' ∈ host → Unicode.lower host =
      Unicode.lower (Text.before '%' host) ++ '%' :: Unicode.lower (Text.after '%' host) := by
    intro hm
    conv_lhs => rw [← Text.before_append_after hm, Unicode.lower_boundary _ _ _ (by decide)]
  refine ⟨fun heq => ?_, fun ⟨hlast, hzone⟩ => ?_⟩
  · have hlast : host.getLast? ≠ some '.' := by
      intro hdot
      obtain ⟨x, rfl⟩ := List.getLast?_eq_some_iff.mp hdot
      have hdots := congrArg (List.count '.') heq
      have hle : ((x ++ ['.']).rdropWhile (· == '.')).count '.' ≤ x.count '.' := by
        rw [List.rdropWhile_concat_pos _ _ _ (by decide)]
        exact (List.rdropWhile_prefix _ _).sublist.count_le _
      have hrhs : (if (x ++ ['.']).contains '%' then Unicode.lower (Text.before '%' (x ++ ['.'])) ++
          '%' :: Text.after '%' (x ++ ['.']) else Unicode.lower (x ++ ['.'])).count '.' =
          (x ++ ['.']).count '.' := by
        split
        · rename_i hm
          conv_rhs => rw [← Text.before_append_after (List.contains_iff_mem.mp hm)]
          simp [List.count_append, Unicode.lower_count_mark _ '.' (by decide)]
        · exact Unicode.lower_count_mark _ _ (by decide)
      have hone : (x ++ ['.']).count '.' = x.count '.' + 1 := by simp [List.count_append]
      rw [Unicode.lower_count_mark _ _ (by decide), hrhs] at hdots
      omega
    refine ⟨hlast, ?_⟩
    rw [hkeep hlast] at heq
    by_cases hm : '%' ∈ host
    · rw [if_pos (List.contains_iff_mem.mpr hm), hpercent hm] at heq
      exact (List.cons.inj (List.append_cancel_left heq)).2
    · have hall : ∀ x ∈ host, (x != '%') = true := fun x hx => by
        have : x ≠ '%' := fun hxc => hm (hxc ▸ hx)
        simpa using this
      simp [Text.after, List.dropWhile_eq_nil_iff.mpr hall]
  · rw [hkeep hlast]
    by_cases hm : '%' ∈ host
    · rw [if_pos (List.contains_iff_mem.mpr hm), hpercent hm, hzone]
    · rw [if_neg (by simpa using hm)]

/-- A port that `urlsplit` reads is written in digits, or not at all. -/
theorem digits_of_port {parsed : SplitUrl} {written : Option ℕ} (h : parsed.port = .ok written) :
    (Url.hostinfo parsed.netloc).2.all Char.isDigit = true := by
  simp only [SplitUrl.port] at h
  generalize (Url.hostinfo parsed.netloc).2 = port at h ⊢
  by_cases hempty : port = []
  · simp [hempty]
  · by_contra hno
    rw [Bool.eq_false_iff.mpr hno] at h
    simp [hempty] at h

/-- The decision's port is the effective port exactly when no port zero is written and a
port is written unless the scheme has a default. -/
theorem ports_agree_iff {url scheme info remainder : Text} {parsed : SplitUrl}
    {written : Option ℕ} (hcut : Text.cut schemeSep (Text.strip url) = some (scheme, remainder))
    (hinfo : hostPort remainder = info) (hlower : Unicode.lower scheme = parsed.scheme)
    (hport : (Url.hostinfo parsed.netloc).2 = (portText info).getD [])
    (hw : parsed.port = .ok written) :
    (∃ s, schemeAndPort url = .ok (s, some (effectivePort parsed.scheme written))) ↔
      ((Url.hostinfo parsed.netloc).2 ≠ [] →
          Text.toInt? (Url.hostinfo parsed.netloc).2 ≠ some 0) ∧
        ((Url.hostinfo parsed.netloc).2 = [] →
          parsed.scheme = "https".toList ∨ parsed.scheme = "http".toList) := by
  have hdigits := digits_of_port hw
  simp only [SplitUrl.port] at hw
  simp only [schemeAndPort, hcut, afterScheme, hinfo, hlower]
  generalize (Url.hostinfo parsed.netloc).2 = port at hport hw hdigits ⊢
  generalize parsed.scheme = scheme' at hlower ⊢
  by_cases hempty : port = []
  · -- no port is written: both sides take a default, and only two schemes share it
    subst hempty
    obtain rfl : none = written := by simpa using hw
    have hnone : (portText info).filter Text.allDigits = none := by
      cases hp : portText info with
      | none => rfl
      | some d =>
        obtain rfl : [] = d := by simpa [hp] using hport
        rfl
    simp only [hnone, ne_eq, not_true_eq_false, false_implies, true_and, true_implies,
      Except.ok.injEq, Prod.mk.injEq, exists_eq_left', effectivePort, defaultPort]
    by_cases h1 : scheme' = "https".toList
    · simp [h1]
    · by_cases h2 : scheme' = "http".toList
      · simp [h2]
      · simp only [beq_iff_eq, h1, h2, if_false, reduceCtorEq, or_self]
  · have hall : Text.allDigits port = true := by
      simp only [Text.allDigits, Bool.and_eq_true, Bool.not_eq_true', List.isEmpty_eq_false_iff]
      refine ⟨hempty, List.all_eq_true.mpr fun c hc => ?_⟩
      have hd := List.all_eq_true.mp hdigits c hc
      rw [Unicode.isDigit_ascii c (isAscii_of_isDigit hd)]
      exact hd
    have hsome : (portText info).filter Text.allDigits = some port := by
      cases hp : portText info with
      | none => exact absurd (by simpa [hp] using hport) hempty
      | some d =>
        obtain rfl : port = d := by simpa [hp] using hport
        simp [Option.filter, hall]
    cases hn : Text.toInt? port with
    | none => simp [hempty, hdigits, hn] at hw
    | some n =>
      have hwritten : written = some n := by
        simp only [List.isEmpty_iff, hempty, if_false, hdigits, Bool.not_true, Bool.false_eq_true,
          hn] at hw
        split at hw
        · exact (Except.ok.inj hw).symm
        · simp at hw
      simp only [hsome, hn, hwritten, Except.ok.injEq, Prod.mk.injEq, exists_eq_left',
        Option.some.injEq, ne_eq, hempty, not_false_eq_true, true_implies, false_implies,
        and_true]
      cases n with
      | zero =>
        simp only [effectivePort, not_true_eq_false, iff_false]
        split <;> omega
      | succ m => simp [effectivePort]

/-! ## The signed entries of a projection -/

/-- Only a text is allowed. -/
theorem evaluateTarget_allowed {candidate : PolicyInput} {target : Json} {d : PolicyDecision}
    (h : evaluateTarget candidate target = .ok d) (ha : d.allowed = true) :
    ∃ s, target = .str s := by
  unfold evaluateTarget at h
  split at h
  · exact ⟨_, rfl⟩
  · simp only at h
    split at h
    · rename_i hgate
      obtain rfl := Except.ok.inj h
      simp [ha] at hgate
    · split at h
      · simp at h
      · obtain rfl := Except.ok.inj h
        simp [deny] at ha

/-- What the entry of a signed dispatch was made from. -/
theorem narrow_eq_ok {candidate : PolicyInput} {dispatch entry : Json}
    (h : narrow candidate dispatch = .ok entry) :
    ∃ request url kind host parsed written signed, dispatch.item "request" = .ok request ∧
      request.item "url" = .ok (.str url) ∧ normalizeTarget url.toList = some (kind, host) ∧
      Url.urlsplit url.toList = .ok parsed ∧ parsed.port = .ok written ∧
      parsed.hostname = some signed ∧
      entry.item "origin" =
        .ok (.str (originText parsed.scheme signed (effectivePort parsed.scheme written))) := by
  unfold narrow at h
  obtain ⟨request, hreq, h⟩ := bind_eq_ok h
  obtain ⟨url, hurl, h⟩ := bind_eq_ok h
  obtain ⟨decision, hdec, h⟩ := bind_eq_ok h
  obtain ⟨_, hallowed, h⟩ := bind_eq_ok h
  obtain ⟨parsed, hparsed, h⟩ := bind_eq_ok h
  obtain ⟨written, hport, h⟩ := bind_eq_ok h
  have hallowed := ensure_eq_ok hallowed
  split at h
  swap
  · simp at h
  rename_i signed hsigned
  obtain ⟨method, -, h⟩ := bind_eq_ok h
  obtain rfl := Except.ok.inj h
  obtain ⟨target, rfl⟩ : ∃ s, url = .str s := evaluateTarget_allowed (raise_eq_ok hdec) hallowed
  obtain ⟨-, kind, host, hnorm, -⟩ := evaluate_allowed (raise_eq_ok hdec) hallowed
  exact ⟨request, target, kind, host, parsed, written, signed, raise_eq_ok hreq, raise_eq_ok hurl,
    hnorm, raise_eq_ok hparsed, raise_eq_ok hport, hsigned, rfl⟩

/-- The host a target is classified as is the folded host text of its authority. -/
theorem normalizeTarget_host {target host remainder scheme info : Text} {kind : TargetKind}
    (h : normalizeTarget target = some (kind, host))
    (hcut : Text.cut schemeSep (Text.strip target) = some (scheme, remainder))
    (hinfo : hostPort remainder = info) :
    ∃ written, hostText info = some written ∧
      host = Unicode.lower (written.rdropWhile (· == '.')) := by
  simp only [normalizeTarget, afterScheme, hcut, hinfo] at h
  split at h
  · rename_i written hw
    refine ⟨written, hw, ?_⟩
    unfold classify at h
    split at h
    · simp at h
    split at h
    · exact (Prod.mk.inj (Option.some.inj h)).2.symm
    split at h
    · simp at h
    · exact (Prod.mk.inj (Option.some.inj h)).2.symm
  · simp at h

/-- For an accepted dispatch whose URL has one plain authority, the decision and the
signed entry name the same host and port exactly when that authority reads alike. -/
theorem narrow_sameHost_iff {candidate : PolicyInput} {dispatch entry request : Json}
    {url : String} {scheme info : Text} (h : narrow candidate dispatch = .ok entry)
    (hreq : dispatch.item "request" = .ok request) (hurl : request.item "url" = .ok (.str url))
    (hplain : PlainUrl url.toList scheme info) :
    SameHost dispatch entry ↔ ReadsAlike scheme info := by
  obtain ⟨request', url', kind, host, parsed, written, signed, hreq', hurl', hnorm, hparsed, hport,
    hsigned, horigin⟩ := narrow_eq_ok h
  obtain rfl : request = request' := Except.ok.inj (hreq.symm.trans hreq')
  obtain rfl : url = url' := by
    have := Except.ok.inj (hurl.symm.trans hurl')
    exact Json.str.inj this
  obtain ⟨remainder, hcut, hinfo⟩ := plain_hostPort hplain
  obtain ⟨hscheme, hat, hbracket⟩ := plain_urlsplit hplain hparsed
  obtain ⟨text, htext, rfl⟩ := normalizeTarget_host hnorm hcut hinfo
  have hnetloc : Url.hostinfo parsed.netloc = Url.hostinfo info := by
    simp only [Url.hostinfo, hat, Text.afterLast_of_notMem hplain.info_at]
  have hdigits : (Url.hostinfo info).2.all Char.isDigit = true := by
    rw [← hnetloc]
    exact digits_of_port hport
  obtain ⟨hfst, hsnd⟩ := hostinfo_eq hat hbracket hdigits hplain.info_at htext
  have hlower : Unicode.lower scheme = parsed.scheme := by
    rw [hscheme, Unicode.lower_ascii]
    exact fun c hc => (Url.schemeChar_spec (List.all_eq_true.mp hplain.scheme_chars c hc)).1
  have hname : signed = if text.contains '%' then
      Unicode.lower (Text.before '%' text) ++ '%' :: Text.after '%' text
      else Unicode.lower text := by
    simp only [SplitUrl.hostname, hnetloc, hfst] at hsigned
    split at hsigned
    · simp at hsigned
    · split at hsigned <;> · rename_i hp; simp only [hp]; exact (Option.some.inj hsigned).symm
  have hhosts := hosts_agree_iff text
  have hports := ports_agree_iff hcut hinfo hlower (hnetloc ▸ hsnd) hport
  rw [← hname] at hhosts
  rw [hnetloc, hscheme] at hports
  have hreads : ReadsAlike scheme info ↔
      Unicode.lower (text.rdropWhile (· == '.')) = signed ∧
        ∃ s, schemeAndPort url.toList =
          .ok (s, some (effectivePort (scheme.map Char.toLower) written)) := by
    rw [hhosts, hports, and_assoc, ← hfst]
    rfl
  rw [hreads, ← hscheme]
  refine ⟨fun hsame => ?_, fun ⟨hhost, s, hs⟩ => ?_⟩
  · obtain ⟨request', url', kind', host', port', s, parsed', written', h1, h2, h3, h4, h5, h6, h7, h8,
      -⟩ := hsame
    obtain rfl : request = request' := Except.ok.inj (hreq.symm.trans h1)
    obtain rfl : url = url' := Json.str.inj (Except.ok.inj (hurl.symm.trans h2))
    obtain rfl : parsed = parsed' := Except.ok.inj (hparsed.symm.trans h5)
    obtain rfl : written = written' := Except.ok.inj (hport.symm.trans h6)
    obtain rfl : signed = host' := Option.some.inj (hsigned.symm.trans h7)
    rw [hnorm, Option.some.injEq, Prod.mk.injEq] at h3
    exact ⟨h3.2, s, h8 ▸ h4⟩
  · subst hhost
    exact ⟨request, url, kind, _, _, s, parsed, written, hreq, hurl, hnorm, hs, hparsed, hport,
      hsigned, rfl, horigin⟩

/-- A dispatch of the plan and the signed entry in its place. -/
def SignedEntry (p : Projection) (result dispatch entry : Json) : Prop :=
  ∃ (dispatches narrowed : List Json) (i : ℕ), planDispatches p.plan = .ok dispatches ∧
    (result.field "context").field "scope" = .arr narrowed ∧
    dispatches[i]? = some dispatch ∧ narrowed[i]? = some entry

/-- Every signed entry names the host and port that the evaluator decided about. -/
def SignsDecidedHosts : Prop :=
  ∀ (db : Db) (p : Projection) (result dispatch entry : Json),
    projectCurrentAuthority db p = .ok result → SignedEntry p result dispatch entry →
      SameHost dispatch entry

def exampleEngagement : Engagement where
  id := "e1"
  ownerGithubId := "u1"
  orgId := none
  engagementType := some "pentest"
  engagementStatus := some "active"
  startsAt := none
  endsAt := none
  stopWorkAt := none
  maxRequestRate := none
  concurrencyLimit := some 1
  targetLimit := none
  targetsSpent := 0
  durationLimit := some 600
  durationAllocated := 0
  managedAuthorityRevision := 0

def exampleAuthorization : Authorization where
  id := "a1"
  programId := "e1"
  permits := ""
  authorizedBy := ""
  authorizedAt := none
  reference := ""
  windowStart := none
  windowEnd := none
  status := "active"

def exampleJob : ScanJob where
  id := "j1"
  programId := "e1"
  toolType := "vardrgate_api_test"
  targetSource := "scope"
  config := .obj [("test_case_id", .str "c1")]
  caseSnapshot := .null
  managedApprovalId := none
  authorizationContractRequired := false
  assessment := .null
  status := .pending
  dependsOn := none
  createdAt := 0
  startedAt := none
  completedAt := none
  errorMessage := ""

def exampleDb : Db :=
  { Db.empty with
    engagements := .single exampleEngagement
    authorizations := .single exampleAuthorization
    scopeItems := .single ⟨"s1", "e1", "in", "app.example.com", some "domain"⟩
    testCases := .single ⟨"c1", "e1", "login", "c1", .obj [("id", .str "c1")], 0⟩
    jobs := .single exampleJob }

def exampleDispatch (url : String) : Json :=
  .obj [("request", .obj [("url", .str url), ("method", .str "GET")])]

def exampleProjection (url : String) : Projection where
  jobId := "j1"
  authorizationId := "a1"
  actor := "u1"
  plan := .obj [
    ("schema", .str "vardr.execution-plan/1"),
    ("profile", .str "gate-fixed-http/1"),
    ("case_hash", .str (Sha256.ofText "\x7b\"id\":\"c1\"\x7d".toList)),
    ("dispatches", .arr [exampleDispatch url]),
    ("max_http_dispatches", .int 1)]
  runnerId := "r1"
  authorityRevision := 0
  expiresAt := exampleNoon
  maxExecutions := .int 1
  maxDurationSeconds := .int 60
  maxArtifactBytes := .int 1000
  credentialGrants := .arr []
  now := ⟨63890000000000000, some 0, by decide⟩
  jobStatuses := [.pending]

/-- An accepted projection of the example has one signed entry. -/
theorem example_signedEntry {url : String} {result : Json}
    (h : projectCurrentAuthority exampleDb (exampleProjection url) = .ok result) :
    ∃ entry, SignedEntry (exampleProjection url) result (exampleDispatch url) entry := by
  obtain ⟨facts, dispatches, narrowed, hproj⟩ := projectCurrentAuthority_eq_ok h
  obtain rfl : [exampleDispatch url] = dispatches := Except.ok.inj hproj.dispatches_ok
  have hn := hproj.narrow_ok
  have hscope := hproj.scope
  cases hn with
  | cons hd hrest =>
    exact ⟨_, [exampleDispatch url], _, 0, rfl, hscope, rfl, rfl⟩

end VardrMap
