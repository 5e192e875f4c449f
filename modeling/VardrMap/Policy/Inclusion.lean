import VardrMap.Policy

/-!
# What a single inclusion admits

A `url` or `api` rule is meant to admit targets on its own host. The comparison with the
rule's host is skipped when the rule value has none, so such a rule admits foreign hosts;
`admitsOnlyOwnHost_iff` says exactly which rules keep to their host.
-/
namespace VardrMap.Policy
open Lib

variable [Unicode]

/-! ## Facts about the decision -/

theorem firstMatch_eq_some {excluded : Bool} {kind : TargetKind} {value target : Text}
    {rules : List ScopeRule} {rule : ScopeRule}
    (h : firstMatch excluded kind value target rules = .ok (some rule)) :
    rule ∈ rules ∧ rule.excluded = excluded ∧ ruleMatches rule kind value target = .ok true := by
  induction rules with
  | nil => simp [firstMatch] at h
  | cons r rs ih =>
    simp only [firstMatch] at h
    split at h
    · rename_i hr
      cases hm : ruleMatches r kind value target with
      | error e => simp [hm, bind, Except.bind] at h
      | ok b =>
        cases b with
        | true =>
          obtain rfl : r = rule := by simpa [hm, bind, Except.bind, pure, Except.pure] using h
          exact ⟨List.mem_cons_self, by simpa using hr, hm⟩
        | false =>
          have := ih (by simpa [hm, bind, Except.bind, pure, Except.pure] using h)
          exact ⟨List.mem_cons_of_mem _ this.1, this.2⟩
    · have := ih (by simpa [bind, Except.bind, pure, Except.pure] using h)
      exact ⟨List.mem_cons_of_mem _ this.1, this.2⟩

/-- An allowed target passed the gates, was classified, and matched an inclusion. -/
theorem evaluate_allowed {candidate : PolicyInput} {d : PolicyDecision}
    (h : evaluate candidate = .ok d) (ha : d.allowed = true) :
    (evaluateEngagement candidate).allowed = true ∧
      ∃ kind value, normalizeTarget candidate.target = some (kind, value) ∧
        ∃ rule ∈ candidate.scopeRules, rule.excluded = false ∧
          ruleMatches rule kind value candidate.target = .ok true := by
  simp only [evaluate] at h
  split at h
  · rename_i hg
    obtain rfl : evaluateEngagement candidate = d := by simpa using h
    simp [ha] at hg
  rename_i hg
  refine ⟨by simpa using hg, ?_⟩
  split at h
  · obtain rfl := Except.ok.inj h
    simp [deny] at ha
  rename_i kind value hn
  refine ⟨kind, value, hn, ?_⟩
  simp only [evaluateScope] at h
  cases hx : firstMatch true kind value candidate.target candidate.scopeRules with
  | error e => simp [hx, bind, Except.bind] at h
  | ok ex =>
    cases ex with
    | some rule =>
      simp only [hx, bind, Except.bind, pure, Except.pure, Except.ok.injEq] at h
      simp [← h, deny] at ha
    | none =>
      cases hi : firstMatch false kind value candidate.target candidate.scopeRules with
      | error e => simp [hx, hi, bind, Except.bind] at h
      | ok inc =>
        cases inc with
        | some rule =>
          obtain ⟨hmem, hexc, hm⟩ := firstMatch_eq_some hi
          exact ⟨rule, hmem, hexc, hm⟩
        | none =>
          simp only [hx, hi, bind, Except.bind, pure, Except.pure, Except.ok.injEq] at h
          simp [← h, deny] at ha

/-- A match of a `url` rule: the host agrees when the rule has one, and the rule's scheme
and port can be read. -/
theorem urlMatches_eq_true {ruleValue value rawTarget : Text}
    (h : urlMatches ruleValue value rawTarget = .ok true) :
    (∀ p ∈ normalizeTarget ruleValue, p.2 = value) ∧ ∃ sp, schemeAndPort ruleValue = .ok sp := by
  simp only [urlMatches] at h
  split at h
  · simp [pure, Except.pure] at h
  rename_i hhost
  refine ⟨fun p hp => ?_, ?_⟩
  · by_contra hne
    exact hhost (by simp [show normalizeTarget ruleValue = some p from hp, hne])
  · cases hs : schemeAndPort ruleValue with
    | error e => simp [hs, bind, Except.bind] at h
    | ok sp => exact ⟨sp, rfl⟩

/-! ## The claim about one inclusion -/

/-- A rule is the only inclusion among the scope rules. -/
def OnlyInclusion (rule : ScopeRule) (rules : List ScopeRule) : Prop :=
  rule ∈ rules ∧ rule.excluded = false ∧ ∀ r ∈ rules, r.excluded = false → r = rule

/-- Whenever the rule is the only inclusion and a target is allowed, the rule value names
a host and the target's host is that host. -/
def AdmitsOnlyOwnHost (rule : ScopeRule) : Prop :=
  ∀ (candidate : PolicyInput) (d : PolicyDecision), OnlyInclusion rule candidate.scopeRules →
    evaluate candidate = .ok d → d.allowed = true →
      ∃ k k' host, normalizeTarget rule.text = some (k, host) ∧
        normalizeTarget candidate.target = some (k', host)

/-- The rule value names a host, or the rule can match nothing: its value is blank, or its
port consists of digits that `int` refuses. -/
def KeepsToHost (rule : ScopeRule) : Prop :=
  (normalizeTarget rule.text).isSome = true ∨ rule.text = [] ∨
    ∀ sp, schemeAndPort rule.text ≠ .ok sp

theorem KeepsToHost.admitsOnlyOwnHost {rule : ScopeRule} (hkind : rule.kind = "url" ∨ rule.kind = "api")
    (h : KeepsToHost rule) : AdmitsOnlyOwnHost rule := by
  intro candidate d honly hev hd
  obtain ⟨-, kind, value, hn, r, hr, hexc, hm⟩ := evaluate_allowed hev hd
  obtain rfl := honly.2.2 r hr hexc
  have hcidr : (r.kind == "cidr") = false := by rcases hkind with hk | hk <;> simp [hk]
  have hurl : (r.kind == "url" || r.kind == "api") = true := by
    rcases hkind with hk | hk <;> simp [hk]
  simp only [ruleMatches, hcidr, hurl, if_true, Bool.false_eq_true, if_false] at hm
  split at hm
  · simp at hm
  rename_i hne
  obtain ⟨hhost, sp, hsp⟩ := urlMatches_eq_true hm
  rcases h with hsome | hblank | hport
  · obtain ⟨⟨k, host⟩, hk⟩ := Option.isSome_iff_exists.mp hsome
    have : host = value := hhost (k, host) hk
    exact ⟨k, kind, host, hk, this ▸ hn⟩
  · exact absurd (by simp [hblank]) hne
  · exact absurd hsp (hport sp)

/-! ## A target that an unclassifiable rule admits

The target keeps the rule's scheme, port text and path and replaces its host. -/

/-- The part of a URL from its host on. -/
def foreign (port : Option Text) (path : Text) : Text :=
  "a.a".toList ++ (port.elim [] fun d => ':' :: d) ++ '/' :: path

theorem notMem_digits {d : Text} (h : Text.allDigits d = true) (c : Char)
    (hc : c.isDigit = false) (ha : isAscii c = true) : c ∉ d := by
  intro hm
  simp only [Text.allDigits, Bool.and_eq_true, List.all_eq_true] at h
  have := h.2 c hm
  rw [Unicode.isDigit_ascii c ha, hc] at this
  exact Bool.noConfusion this

theorem notMem_foreignAuthority {port : Option Text} (hp : ∀ d ∈ port, Text.allDigits d = true)
    (c : Char) (hc : c.isDigit = false) (ha : isAscii c = true)
    (hm : c ∉ "a.a:".toList) : c ∉ "a.a".toList ++ (port.elim [] fun d => ':' :: d) := by
  have hm' : c ≠ 'a' ∧ c ≠ '.' ∧ c ≠ ':' := by
    refine ⟨?_, ?_, ?_⟩ <;> · rintro rfl; exact hm (by decide)
  cases port with
  | none => simp [hm']
  | some d =>
    have := notMem_digits (hp d rfl) c hc ha
    simp [hm', this]

theorem hostPort_foreign {port : Option Text} (path : Text)
    (hp : ∀ d ∈ port, Text.allDigits d = true) :
    hostPort (foreign port path) = "a.a".toList ++ (port.elim [] fun d => ':' :: d) := by
  have hslash := notMem_foreignAuthority hp '/' (by decide) (by decide) (by decide)
  have hat := notMem_foreignAuthority hp '@' (by decide) (by decide) (by decide)
  rw [hostPort, foreign, Text.before_append_cons hslash]
  simp only [List.contains_eq_mem, hat, decide_false, Bool.false_eq_true, if_false]

theorem count_colon_foreign {d : Text} (hd : Text.allDigits d = true) :
    ("a.a".toList ++ ':' :: d).count ':' = 1 := by
  have := notMem_digits hd ':' (by decide) (by decide)
  simp [List.count_eq_zero_of_not_mem this]

theorem hostText_foreign {port : Option Text} (path : Text)
    (hp : ∀ d ∈ port, Text.allDigits d = true) :
    hostText (hostPort (foreign port path)) = some "a.a".toList := by
  rw [hostPort_foreign path hp]
  cases port with
  | none => decide
  | some d =>
    have hcount := count_colon_foreign (hp d rfl)
    simp only [Option.elim_some]
    change (if ("a.a".toList ++ ':' :: d).count ':' == 1 then
      some (Text.before ':' ("a.a".toList ++ ':' :: d)) else _) = _
    rw [hcount, Text.before_append_cons (by decide)]
    rfl

theorem portText_foreign {port : Option Text} (path : Text)
    (hp : ∀ d ∈ port, Text.allDigits d = true) :
    (portText (hostPort (foreign port path))).filter Text.allDigits = port := by
  rw [hostPort_foreign path hp]
  cases port with
  | none => rfl
  | some d =>
    have hcount := count_colon_foreign (hp d rfl)
    simp only [Option.elim_some]
    change (if ("a.a".toList ++ ':' :: d).count ':' == 1 then
      some (Text.after ':' ("a.a".toList ++ ':' :: d)) else none).filter Text.allDigits = _
    rw [hcount, Text.after_append_cons (by decide)]
    simp [Option.filter, hp d rfl]

theorem classify_foreign : classify (Unicode.lower ("a.a".toList.rdropWhile (· == '.'))) =
    some (.domain, "a.a".toList) := by
  have hl : Unicode.lower ("a.a".toList.rdropWhile (· == '.')) = "a.a".toList := by
    rw [show "a.a".toList.rdropWhile (· == '.') = "a.a".toList by decide,
      Unicode.lower_ascii _ (by simp [isAscii])]
    decide
  rw [hl, classify, show Ip.address "a.a".toList = none by decide]
  decide

theorem pathOf_foreign {target : Text} {port : Option Text} {path : Text}
    (hp : ∀ d ∈ port, Text.allDigits d = true) (h : afterScheme target = foreign port path) :
    pathOf target = '/' :: Unicode.lower ((Text.before '?' path).rdropWhile (· == '/')) := by
  have hslash := notMem_foreignAuthority hp '/' (by decide) (by decide) (by decide)
  have hmem : '/' ∈ foreign port path := by simp [foreign]
  have hafter : Text.after '/' (foreign port path) = path := Text.after_append_cons hslash path
  simp [pathOf, h, hmem, hafter]

/-- The digits written as the port of a target. -/
def portDigits (target : Text) : Option Text :=
  (portText (hostPort (afterScheme target))).filter Text.allDigits

/-- The scheme text a target on a foreign host is given: the rule's own, or one that
nothing compares. -/
def foreignScheme (ruleText : Text) : Text :=
  (Text.cut schemeSep ruleText).elim "x".toList Prod.fst

/-- The path of a rule text, as it stands after its first slash. -/
def foreignPath (ruleText : Text) : Text :=
  if (afterScheme ruleText).contains '/' then Text.after '/' (afterScheme ruleText) else []

/-- The rule text with its host replaced. -/
def foreignTarget (ruleText : Text) : Text :=
  foreignScheme ruleText ++ schemeSep ++ foreign (portDigits ruleText) (foreignPath ruleText)

theorem allDigits_portDigits {target d : Text} (h : d ∈ portDigits target) :
    Text.allDigits d = true := by
  have h' : (portText (hostPort (afterScheme target))).filter Text.allDigits = some d := h
  exact (Option.filter_eq_some_iff.mp h').2

theorem cut_foreignTarget (ruleText : Text) :
    Text.cut schemeSep (foreignTarget ruleText) =
      some (foreignScheme ruleText, foreign (portDigits ruleText) (foreignPath ruleText)) := by
  unfold foreignTarget foreignScheme
  cases hc : Text.cut schemeSep ruleText with
  | none => exact @Text.cut_append ':' "//".toList "x".toList (by decide) _
  | some p =>
    obtain ⟨s, rest⟩ := p
    rw [Text.eq_append_of_cut hc] at hc
    exact Text.cut_congr _ hc

omit [Unicode] in
/-- The path of a rule text ends as the rule text does. -/
theorem getLast?_of_foreignPath {ruleText : Text} {c : Char}
    (h : (foreignPath ruleText).getLast? = some c) : ruleText.getLast? = some c := by
  have hrest : (afterScheme ruleText).getLast? = some c := by
    unfold foreignPath at h
    split at h
    · rename_i hslash
      rw [← Text.before_append_after (List.contains_iff_mem.mp hslash), List.getLast?_append,
        List.getLast?_cons, h]
      rfl
    · simp at h
  unfold afterScheme at hrest
  split at hrest
  · rename_i hcut
    rw [Text.eq_append_of_cut hcut, List.getLast?_append, hrest]
    rfl
  · exact hrest

theorem strip_foreignTarget {ruleText : Text} (h : Text.strip ruleText = ruleText) :
    Text.strip (foreignTarget ruleText) = foreignTarget ruleText := by
  refine Text.strip_eq_self (fun c hc => ?_) (fun c hc => ?_)
  · rw [foreignTarget, foreignScheme] at hc
    cases hcut : Text.cut schemeSep ruleText with
    | none =>
      obtain rfl : 'x' = c := by simpa [hcut] using hc
      rw [Unicode.isSpace_ascii _ (by decide)]
      decide
    | some p =>
      obtain ⟨s, rest⟩ := p
      have happ := Text.eq_append_of_cut hcut
      have hhead : ruleText.head? = some c := by
        rw [hcut] at hc
        rw [happ]
        cases s with
        | nil => simpa [schemeSep] using hc
        | cons a as => simpa using hc
      rw [← h] at hhead
      exact Text.head?_strip hhead
  · have hsplit : foreignTarget ruleText = (foreignScheme ruleText ++ schemeSep ++ "a.a".toList ++
        ((portDigits ruleText).elim [] fun d => ':' :: d)) ++ '/' :: foreignPath ruleText := by
      simp [foreignTarget, foreign]
    rw [hsplit, List.getLast?_append, List.getLast?_cons, Option.some_or, Option.mem_some_iff] at hc
    by_cases hslash : (foreignPath ruleText).getLast? = none
    · obtain rfl : '/' = c := by simpa [hslash] using hc
      rw [Unicode.isSpace_ascii _ (by decide)]
      decide
    · obtain ⟨d, hd⟩ := Option.ne_none_iff_exists'.mp hslash
      obtain rfl : d = c := by simpa [hd] using hc
      refine Text.getLast?_strip (l := ruleText) ?_
      rw [h]
      exact getLast?_of_foreignPath hd

/-- The replaced host is what the target is classified as. -/
theorem normalizeTarget_foreignTarget {ruleText : Text} (h : Text.strip ruleText = ruleText) :
    normalizeTarget (foreignTarget ruleText) = some (.domain, "a.a".toList) := by
  have hafter : afterScheme (foreignTarget ruleText) =
      foreign (portDigits ruleText) (foreignPath ruleText) := by
    simp [afterScheme, cut_foreignTarget]
  simp only [normalizeTarget, strip_foreignTarget h, hafter,
    hostText_foreign _ fun d hd => allDigits_portDigits hd]
  exact classify_foreign

/-- A `url` rule whose value names no host, and whose scheme and port can be read,
matches the target on a foreign host. -/
theorem urlMatches_foreignTarget {ruleText : Text} {sp : Text × Option ℕ}
    (h : Text.strip ruleText = ruleText) (hnone : normalizeTarget ruleText = none)
    (hsp : schemeAndPort ruleText = .ok sp) (value : Text) :
    urlMatches ruleText value (foreignTarget ruleText) = .ok true := by
  have hp : ∀ d ∈ portDigits ruleText, Text.allDigits d = true :=
    fun d hd => allDigits_portDigits hd
  have hafter : afterScheme (foreignTarget ruleText) =
      foreign (portDigits ruleText) (foreignPath ruleText) := by
    simp [afterScheme, cut_foreignTarget]
  obtain ⟨tp, htp, hscheme, hport⟩ : ∃ tp, schemeAndPort (foreignTarget ruleText) = .ok tp ∧
      (sp.1 = [] ∨ sp.1 = tp.1) ∧ (sp.2 = none ∨ sp.2 = tp.2) := by
    have hdigits : (portText (hostPort (afterScheme ruleText))).filter Text.allDigits =
        portDigits ruleText := rfl
    simp only [schemeAndPort, h, hdigits] at hsp
    simp only [schemeAndPort, strip_foreignTarget h, hafter, portText_foreign _ hp,
      cut_foreignTarget, foreignScheme]
    cases hcut : Text.cut schemeSep ruleText with
    | none =>
      cases hd : portDigits ruleText with
      | none =>
        obtain rfl : ([], defaultPort []) = sp := by simpa [hcut, hd] using hsp
        exact ⟨_, rfl, .inl rfl, .inl (by decide)⟩
      | some d =>
        cases hn : Text.toInt? d with
        | none => simp [hd, hn] at hsp
        | some n =>
          obtain rfl : ([], some n) = sp := by simpa [hcut, hd, hn] using hsp
          refine ⟨(Unicode.lower "x".toList, some n), ?_, .inl rfl, .inr rfl⟩
          simp only [hn]
          rfl
    | some p =>
      refine ⟨sp, ?_, .inr rfl, .inr rfl⟩
      simpa [hcut] using hsp
  have hpath : pathOf ruleText = [] ∨ pathOf (foreignTarget ruleText) = pathOf ruleText := by
    rw [pathOf_foreign hp hafter, foreignPath, pathOf]
    by_cases hs : '/' ∈ afterScheme ruleText
    · right
      simp [hs]
    · left
      simp [hs]
  have hwithin : (pathOf ruleText).isEmpty = false →
      pathWithin (pathOf (foreignTarget ruleText)) (pathOf ruleText) = true := by
    intro hne
    rcases hpath with hnil | heq
    · simp [hnil] at hne
    · simp [pathWithin, heq]
  simp only [urlMatches, hnone, hsp, htp, bind, Except.bind, pure, Except.pure, Option.any_none,
    Bool.false_eq_true, if_false]
  rw [if_neg (by rcases hscheme with hs | hs <;> simp [hs]),
    if_neg (by rcases hport with hs | hs <;> simp [hs])]
  split
  · rfl
  · rename_i hne
    rw [hwithin (by simpa using hne)]

/-! ## Which rules keep to their host -/

/-- An active bug bounty engagement with one scope rule. -/
def soleRule (rule : ScopeRule) (target : Text) : PolicyInput where
  engagementStatus := activeEngagementStatus
  engagementType := "bug_bounty"
  target
  capability := "passive"
  now := ⟨0, none, by decide⟩
  stopWork := false
  authorization := none
  scopeRules := [rule]

omit [Unicode] in
theorem evaluateEngagement_soleRule (rule : ScopeRule) (target : Text) :
    (evaluateEngagement (soleRule rule target)).allowed = true := rfl

/-- With one inclusion that matches, the target is allowed. -/
theorem evaluate_soleRule {rule : ScopeRule} {target value : Text} {kind : TargetKind}
    (hexc : rule.excluded = false) (hn : normalizeTarget target = some (kind, value))
    (hm : ruleMatches rule kind value target = .ok true) :
    ∃ d, evaluate (soleRule rule target) = .ok d ∧ d.allowed = true := by
  refine ⟨⟨true, .allowed, s!"Target matches in-scope rule '{String.ofList rule.value}'."⟩, ?_, rfl⟩
  have hno : firstMatch true kind value target [rule] = .ok none := by
    simp [firstMatch, hexc]
  have hyes : firstMatch false kind value target [rule] = .ok (some rule) := by
    simp [firstMatch, hexc, hm, bind, Except.bind, pure, Except.pure]
  have hscope : (soleRule rule target).scopeRules = [rule] := rfl
  have htarget : (soleRule rule target).target = target := rfl
  simp only [evaluate, evaluateEngagement_soleRule, htarget, hn, evaluateScope, hscope, hno, hyes]
  rfl

/-- A rule keeps to its host exactly when its value names one or can match nothing. -/
theorem admitsOnlyOwnHost_iff (rule : ScopeRule) (hexc : rule.excluded = false)
    (hkind : rule.kind = "url" ∨ rule.kind = "api") :
    AdmitsOnlyOwnHost rule ↔ KeepsToHost rule := by
  refine ⟨fun h => ?_, fun h => h.admitsOnlyOwnHost hkind⟩
  by_contra hfree
  simp only [KeepsToHost, not_or, not_forall, Decidable.not_not] at hfree
  obtain ⟨hnone, hne, sp, hsp⟩ := hfree
  have hnone : normalizeTarget rule.text = none := by simpa using hnone
  have hstrip : Text.strip rule.text = rule.text := Text.strip_lower_strip _
  have hnorm := normalizeTarget_foreignTarget hstrip
  have hmatch : ruleMatches rule .domain "a.a".toList (foreignTarget rule.text) = .ok true := by
    have hcidr : (rule.kind == "cidr") = false := by rcases hkind with hk | hk <;> simp [hk]
    have hurl : (rule.kind == "url" || rule.kind == "api") = true := by
      rcases hkind with hk | hk <;> simp [hk]
    simp only [ruleMatches, List.isEmpty_iff, hne, hcidr, hurl, if_true, if_false,
      Bool.false_eq_true]
    exact urlMatches_foreignTarget hstrip hnone hsp _
  obtain ⟨d, hd, hallowed⟩ := evaluate_soleRule hexc hnorm hmatch
  have honly : OnlyInclusion rule (soleRule rule (foreignTarget rule.text)).scopeRules :=
    ⟨List.mem_singleton_self rule, hexc, fun r hr _ => List.mem_singleton.mp hr⟩
  obtain ⟨k, -, host, hk, -⟩ := h _ d honly hd hallowed
  simp [hnone] at hk

omit [Unicode] in
theorem admitsOnlyOwnHost_iff_portal :
    let rule : ScopeRule := ⟨"https://app.example.com/portal".toList, "url", false⟩
    @AdmitsOnlyOwnHost Unicode.ascii rule ↔ @KeepsToHost Unicode.ascii rule :=
  @admitsOnlyOwnHost_iff Unicode.ascii _ rfl (.inl rfl)

omit [Unicode] in
/-- A bare label as the only `url` rule admits any host whatever. -/
theorem bareLabel_admits_foreign_host :
    let rule : ScopeRule := ⟨"internal".toList, "url", false⟩
    let target := "https://evil.example.net/".toList
    (@evaluate Unicode.ascii (soleRule rule target)).map (·.allowed) = .ok true ∧
      @normalizeTarget Unicode.ascii (@ScopeRule.text Unicode.ascii rule) = none ∧
      ¬ @AdmitsOnlyOwnHost Unicode.ascii rule := by
  intro rule target
  let _ := Unicode.ascii
  have hnone : normalizeTarget rule.text = none := by decide
  have hd : (evaluate (soleRule rule target)).map (·.allowed) = .ok true := by decide
  refine ⟨hd, hnone, fun h => ?_⟩
  cases he : evaluate (soleRule rule target) with
  | error e => simp [he, Except.map] at hd
  | ok d =>
    have honly : OnlyInclusion rule (soleRule rule target).scopeRules :=
      ⟨List.mem_singleton_self rule, rfl, fun r hr _ => List.mem_singleton.mp hr⟩
    obtain ⟨k, -, host, hk, -⟩ := h _ d honly he (by simpa [he, Except.map] using hd)
    simp [hnone] at hk

end VardrMap.Policy
