import VardrMap.Authority

/-!
# When the evaluator returns no decision

A port is read with `int` once its text consists of digits, and `int` refuses digits
without a decimal value and overlong numbers. The rules are compared in a fixed order,
exclusions before inclusions, up to the first one that matches; a rule is *decisive* when
it matches or when comparing it raises. `evaluate_returns_iff` says that the evaluator
raises exactly when the first decisive rule is one that raises.
-/
namespace VardrMap.Policy
open Lib

variable [Unicode]

/-- The target has a port text that consists of digits and is no number. -/
def unreadablePort (target : Text) : Bool :=
  ((portText (hostPort (afterScheme (Text.strip target)))).filter Text.allDigits).any
    fun digits => (Text.toInt? digits).isNone

/-- Reading the port either raises or gives a scheme and a port. -/
theorem schemeAndPort_cases (target : Text) :
    (unreadablePort target = true ∧ schemeAndPort target = .error .valueError) ∨
      (unreadablePort target = false ∧ ∃ p, schemeAndPort target = .ok p) := by
  simp only [unreadablePort, schemeAndPort]
  cases (portText (hostPort (afterScheme (Text.strip target)))).filter Text.allDigits with
  | none => exact .inr ⟨rfl, _, rfl⟩
  | some digits =>
    simp only [Option.any_some]
    cases Text.toInt? digits with
    | none => exact .inl ⟨rfl, rfl⟩
    | some n => exact .inr ⟨rfl, _, rfl⟩

/-- Comparing the rule raises: a `url` or `api` rule without a host, or with the target's own,
one of the two having an unreadable port. -/
def ScopeRule.raises (rule : ScopeRule) (value target : Text) : Bool :=
  !rule.text.isEmpty && (rule.kind == "url" || rule.kind == "api") &&
    !((normalizeTarget rule.text).any fun p => p.2 != value) &&
    (unreadablePort rule.text || unreadablePort target)

/-- The rule matches the classified target. -/
def ScopeRule.matched (rule : ScopeRule) (kind : TargetKind) (value target : Text) : Bool :=
  match ruleMatches rule kind value target with
  | .ok b => b
  | .error _ => false

/-- The outcome of comparing a rule. -/
theorem ruleMatches_eq (rule : ScopeRule) (kind : TargetKind) (value target : Text) :
    ruleMatches rule kind value target =
      if rule.raises value target then .error .valueError
      else .ok (rule.matched kind value target) := by
  have hread : (∃ b, ruleMatches rule kind value target = .ok b) →
      ruleMatches rule kind value target = .ok (rule.matched kind value target) := by
    rintro ⟨b, hb⟩
    simp only [ScopeRule.matched, hb]
  by_cases hempty : rule.text.isEmpty = true
  · rw [if_neg (by simp [ScopeRule.raises, hempty])]
    exact hread ⟨false, by simp [ruleMatches, hempty]⟩
  by_cases hkind : (rule.kind == "url" || rule.kind == "api") = true
  swap
  · rw [if_neg (by simp only [ScopeRule.raises, Bool.eq_false_iff.mpr hkind]; simp)]
    refine hread ?_
    unfold ruleMatches
    simp only [hempty, hkind]
    split_ifs <;> exact ⟨_, rfl⟩
  have hcidr : (rule.kind == "cidr") = false := by
    simp only [Bool.or_eq_true, beq_iff_eq] at hkind
    rcases hkind with hkind | hkind <;> rw [hkind] <;> rfl
  have hurl : ruleMatches rule kind value target = urlMatches rule.text value target := by
    simp [ruleMatches, hempty, hkind, hcidr]
  by_cases hhost : ((normalizeTarget rule.text).any fun p => p.2 != value) = true
  · rw [if_neg (by simp [ScopeRule.raises, hhost])]
    exact hread ⟨false, by rw [hurl, urlMatches, if_pos hhost]; rfl⟩
  have hraises : rule.raises value target =
      (unreadablePort rule.text || unreadablePort target) := by
    simp [ScopeRule.raises, hempty, hkind, hhost]
  rw [hraises]
  rcases schemeAndPort_cases rule.text with ⟨hr, hrule⟩ | ⟨hr, p, hrule⟩
  · rw [hr, Bool.true_or, if_pos rfl, hurl, urlMatches, if_neg hhost, hrule]
    rfl
  rcases schemeAndPort_cases target with ⟨ht, htarget⟩ | ⟨ht, q, htarget⟩
  · rw [hr, ht, Bool.or_true, if_pos rfl, hurl, urlMatches, if_neg hhost, hrule, htarget]
    rfl
  · rw [hr, ht, if_neg (by decide)]
    refine hread ?_
    simp only [hurl, urlMatches, if_neg hhost, hrule, htarget, bind, Except.bind, pure,
      Except.pure]
    split_ifs <;> exact ⟨_, rfl⟩

/-- The rules in the order in which they are compared. -/
def inOrder (rules : List ScopeRule) : List ScopeRule :=
  rules.filter (·.excluded) ++ rules.filter (!·.excluded)

/-- The first rule that matches or raises. -/
def decisive (rules : List ScopeRule) (kind : TargetKind) (value target : Text) :
    Option ScopeRule :=
  (inOrder rules).find? fun r => r.raises value target || r.matched kind value target

/-- The walk over one polarity ends at its first decisive rule. -/
theorem firstMatch_eq (excluded : Bool) (kind : TargetKind) (value target : Text)
    (rules : List ScopeRule) :
    firstMatch excluded kind value target rules =
      match (rules.filter (·.excluded == excluded)).find?
        fun r => r.raises value target || r.matched kind value target with
      | none => .ok none
      | some r => if r.raises value target then .error .valueError else .ok (some r) := by
  induction rules with
  | nil => rfl
  | cons r rs ih =>
    rw [firstMatch, List.filter_cons, ruleMatches_eq, ih]
    by_cases hpolarity : (r.excluded == excluded) = true
    swap
    · rw [if_neg hpolarity, if_neg hpolarity]
    rw [if_pos hpolarity, if_pos hpolarity, List.find?_cons]
    cases hraises : r.raises value target with
    | true => simp [hraises, bind, Except.bind]
    | false =>
      cases hmatched : r.matched kind value target with
      | true => simp [hraises, bind, Except.bind, pure, Except.pure]
      | false => simp [bind, Except.bind]

/-- The gates let the candidate through, its target is classified, and the first decisive rule
is one that raises. -/
def reachesUnreadable (candidate : PolicyInput) : Bool :=
  (evaluateEngagement candidate).allowed &&
    (normalizeTarget candidate.target).any fun p =>
      (decisive candidate.scopeRules p.1 p.2 candidate.target).any
        (·.raises p.2 candidate.target)

/-- The gates let the candidate through, its target is classified, and the first decisive rule
is an inclusion that matches. -/
def permits (candidate : PolicyInput) : Bool :=
  (evaluateEngagement candidate).allowed &&
    (normalizeTarget candidate.target).any fun p =>
      (decisive candidate.scopeRules p.1 p.2 candidate.target).any
        fun r => !r.raises p.2 candidate.target && !r.excluded

/-- The scope part of the decision is made by the first decisive rule. -/
theorem evaluateScope_eq (candidate : PolicyInput) (kind : TargetKind) (value : Text) :
    match decisive candidate.scopeRules kind value candidate.target with
    | none => ∃ d, evaluateScope candidate kind value = .ok d ∧ d.allowed = false
    | some r =>
      if r.raises value candidate.target then
        evaluateScope candidate kind value = .error .valueError
      else ∃ d, evaluateScope candidate kind value = .ok d ∧ d.allowed = !r.excluded := by
  have hexclusions := firstMatch_eq true kind value candidate.target candidate.scopeRules
  have hinclusions := firstMatch_eq false kind value candidate.target candidate.scopeRules
  have htrue : (fun r : ScopeRule => r.excluded == true) = (·.excluded) := by
    funext r
    simp
  have hfalse : (fun r : ScopeRule => r.excluded == false) = (!·.excluded) := by
    funext r
    simp
  rw [htrue] at hexclusions
  rw [hfalse] at hinclusions
  simp only [decisive, inOrder, List.find?_append, evaluateScope, hexclusions, hinclusions]
  cases hx : (candidate.scopeRules.filter (·.excluded)).find?
      fun r => r.raises value candidate.target || r.matched kind value candidate.target with
  | some r =>
    have hexcluded : r.excluded = true := by
      simpa using (List.mem_filter.mp (List.mem_of_find?_eq_some hx)).2
    simp only [Option.some_or]
    split_ifs with hraises
    · rfl
    · exact ⟨_, rfl, by rw [hexcluded]; rfl⟩
  | none =>
    simp only [Option.none_or]
    cases hi : (candidate.scopeRules.filter (!·.excluded)).find?
        fun r => r.raises value candidate.target || r.matched kind value candidate.target with
    | none => exact ⟨_, rfl, rfl⟩
    | some r =>
      have hincluded : r.excluded = false := by
        simpa using (List.mem_filter.mp (List.mem_of_find?_eq_some hi)).2
      dsimp only
      split_ifs with hraises
      · rfl
      · exact ⟨_, rfl, by rw [hincluded]; rfl⟩

/-- The candidate is decided, and allowed exactly when the rules permit it, unless the rules
reach an unreadable port. -/
theorem evaluate_eq (candidate : PolicyInput) :
    if reachesUnreadable candidate then evaluate candidate = .error .valueError
    else ∃ d, evaluate candidate = .ok d ∧ d.allowed = permits candidate := by
  unfold reachesUnreadable permits evaluate
  cases hgate : (evaluateEngagement candidate).allowed with
  | false => exact ⟨evaluateEngagement candidate, by simp [hgate], hgate⟩
  | true =>
    simp only [hgate, Bool.not_true, Bool.false_eq_true, if_false, Bool.true_and]
    cases normalizeTarget candidate.target with
    | none =>
      simp only [Option.any_none, Bool.false_eq_true, if_false]
      exact ⟨_, rfl, rfl⟩
    | some p =>
      have hscope := evaluateScope_eq candidate p.1 p.2
      simp only [Option.any_some]
      cases hd : decisive candidate.scopeRules p.1 p.2 candidate.target with
      | none => simpa [hd] using hscope
      | some r => cases hr : r.raises p.2 candidate.target <;> simpa [hd, hr] using hscope

/-- The targets are decided one by one, up to the first that is not permitted. -/
theorem evaluateTargets_returns_iff (candidate : PolicyInput) (targets : List Text) :
    (∃ d, evaluateTargets candidate targets = .ok d) ↔
      ∀ before target after, targets = before ++ target :: after →
        (∀ t ∈ before, permits { candidate with target := t } = true) →
          reachesUnreadable { candidate with target } = false := by
  induction targets with
  | nil => simp [evaluateTargets]
  | cons t ts ih =>
    have ht := evaluate_eq { candidate with target := t }
    rw [evaluateTargets]
    cases hreach : reachesUnreadable { candidate with target := t } with
    | true =>
      rw [hreach, if_pos rfl] at ht
      rw [ht]
      constructor
      · rintro ⟨d, hd⟩
        cases hd
      · intro h
        have hfirst := h [] t ts rfl (by simp)
        rw [hreach] at hfirst
        cases hfirst
    | false =>
      rw [hreach, if_neg (by simp)] at ht
      obtain ⟨d, hd, hallowed⟩ := ht
      rw [hd]
      cases hp : permits { candidate with target := t } with
      | false =>
        rw [hp] at hallowed
        constructor
        · rintro - before target after hsplit hbefore
          cases before with
          | nil =>
            obtain ⟨rfl, -⟩ := List.cons.inj hsplit
            exact hreach
          | cons b before =>
            obtain ⟨rfl, -⟩ := List.cons.inj hsplit
            have hb := hbefore t (by simp)
            rw [hp] at hb
            cases hb
        · exact fun _ => ⟨d, by simp [bind, Except.bind, hallowed, pure, Except.pure]⟩
      | true =>
        rw [hp] at hallowed
        simp only [bind, Except.bind, hallowed, if_true]
        rw [ih]
        constructor
        · intro h before target after hsplit hbefore
          cases before with
          | nil =>
            obtain ⟨rfl, -⟩ := List.cons.inj hsplit
            exact hreach
          | cons b before =>
            obtain ⟨rfl, rfl⟩ := List.cons.inj hsplit
            exact h before target after rfl fun u hu => hbefore u (List.mem_cons_of_mem _ hu)
        · intro h before target after hsplit hbefore
          refine h (t :: before) target after (by rw [hsplit]; rfl) fun u hu => ?_
          rcases List.mem_cons.mp hu with rfl | hu
          · exact hp
          · exact hbefore u hu

/-- A candidate is decided unless its rules reach an unreadable port; a list of targets is
decided unless the rules reach one for a target that only permitted ones precede. -/
theorem evaluate_returns_iff (candidate : PolicyInput) (targets : List Text) :
    ((∃ d, evaluate candidate = .ok d) ↔ reachesUnreadable candidate = false) ∧
    ((∃ d, evaluateAll candidate targets = .ok d) ↔
      ∀ before target after, targets = before ++ target :: after →
        (∀ t ∈ before, permits { candidate with target := t } = true) →
          reachesUnreadable { candidate with target } = false) := by
  refine ⟨?_, ?_⟩
  · have h := evaluate_eq candidate
    cases hreach : reachesUnreadable candidate with
    | true =>
      rw [hreach, if_pos rfl] at h
      simp [h]
    | false =>
      rw [hreach, if_neg (by simp)] at h
      obtain ⟨d, hd, -⟩ := h
      exact ⟨fun _ => rfl, fun _ => ⟨d, hd⟩⟩
  · unfold evaluateAll
    cases hgate : (evaluateEngagement candidate).allowed with
    | true =>
      simp only [hgate, Bool.not_true, Bool.false_eq_true, if_false]
      exact evaluateTargets_returns_iff candidate targets
    | false =>
      have hnone : ∀ target, reachesUnreadable { candidate with target } = false := by
        intro target
        have hsame : evaluateEngagement { candidate with target } = evaluateEngagement candidate :=
          rfl
        rw [reachesUnreadable, hsame, hgate, Bool.false_and]
      exact ⟨fun _ before target after _ _ => hnone target,
        fun _ => ⟨evaluateEngagement candidate, by simp [hgate]⟩⟩

/-! ## A superscript in a port -/

omit [Unicode] in
/-- A superscript two. -/
def isSuperscript (c : Char) : Bool := c.toNat == 178

/-- Tables that know a digit without a decimal value besides ASCII. -/
@[reducible] def superscriptDigits : Unicode where
  __ := Unicode.ascii
  isDigit c := Unicode.ascii.isDigit c || isSuperscript c
  isDigit_ascii c h := by
    have hc : isSuperscript c = false := by
      simp only [isAscii, isSuperscript, decide_eq_true_eq, beq_eq_false_iff_ne] at h ⊢
      omega
    rw [hc, Bool.or_false]
    exact Unicode.ascii.isDigit_ascii c h
  isDigit_of_decimal c n h := by
    rw [Unicode.ascii.isDigit_of_decimal c n h, Bool.true_or]

/-- A candidate that every gate lets through, with one rule for one page. -/
def exampleCandidate : PolicyInput :=
  ⟨"active", "bug_bounty", "http://a.com:\u00b2/".toList, "nuclei", exampleNoon, false, none,
    [⟨"http://a.com/".toList, "url", false⟩]⟩

omit [Unicode] in
/-- Its port is a digit that `int` refuses, so no decision is returned. -/
theorem evaluate_superscript :
    (¬ ∃ d, @evaluate superscriptDigits exampleCandidate = .ok d) ∧
      ¬ ∃ d, @evaluateAll superscriptDigits exampleCandidate [exampleCandidate.target] =
        .ok d := by
  have hraised : @evaluate superscriptDigits exampleCandidate = .error .valueError := by
    decide +kernel
  refine ⟨?_, ?_⟩
  · rintro ⟨d, hd⟩
    rw [hraised] at hd
    cases hd
  · rintro ⟨d, hd⟩
    have hraisedAll : @evaluateAll superscriptDigits exampleCandidate
        [exampleCandidate.target] = .error .valueError := by decide +kernel
    rw [hraisedAll] at hd
    cases hd

end VardrMap.Policy
