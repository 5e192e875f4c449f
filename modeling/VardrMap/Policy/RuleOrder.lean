import VardrMap.Lib.DenyOverrides
import VardrMap.Policy.Inclusion

/-!
# Exclusions dominate, and the order of the rules does not matter

The evaluator walks the rules one by one; what it decides is the verdict of the set of
exclusions and the set of inclusions that the list holds. Whatever holds of verdicts holds
of its decisions: the order of the list does not matter, an exclusion wins over every
inclusion, and more exclusions never admit a target. Reading a rule can raise; the laws are
about decisions that are returned, and a reordered list that returns none has a rule that
raises.
-/
namespace VardrMap.Policy
open Lib

variable [Unicode]

/-! ## The walk over the rules -/

/-- The first match is nothing when every rule of the polarity was compared and missed. -/
theorem firstMatch_eq_none {excluded : Bool} {kind : TargetKind} {value target : Text}
    {rules : List ScopeRule} (h : firstMatch excluded kind value target rules = .ok none) :
    ∀ rule ∈ rules, rule.excluded = excluded → ruleMatches rule kind value target = .ok false := by
  induction rules with
  | nil => simp
  | cons r rs ih =>
    simp only [firstMatch] at h
    intro rule hmem hpolarity
    by_cases hr : r.excluded = excluded
    · rw [if_pos (by simpa using hr)] at h
      cases hm : ruleMatches r kind value target with
      | error e => simp [hm, bind, Except.bind] at h
      | ok b =>
        cases b with
        | true => simp [hm, bind, Except.bind, pure, Except.pure] at h
        | false =>
          have hrest : firstMatch excluded kind value target rs = .ok none := by
            simpa [hm, bind, Except.bind, pure, Except.pure] using h
          rcases List.mem_cons.mp hmem with rfl | hmem
          · exact hm
          · exact ih hrest rule hmem hpolarity
    · rw [if_neg (by simpa using hr)] at h
      have hrest : firstMatch excluded kind value target rs = .ok none := by
        simpa [bind, Except.bind, pure, Except.pure] using h
      rcases List.mem_cons.mp hmem with rfl | hmem
      · exact absurd hpolarity hr
      · exact ih hrest rule hmem hpolarity

/-- The walk raises only where one of its rules does. -/
theorem firstMatch_eq_error {excluded : Bool} {kind : TargetKind} {value target : Text}
    {rules : List ScopeRule} {e : Exn}
    (h : firstMatch excluded kind value target rules = .error e) :
    ∃ rule ∈ rules, ruleMatches rule kind value target = .error e := by
  induction rules with
  | nil => simp [firstMatch] at h
  | cons r rs ih =>
    simp only [firstMatch] at h
    have hlater (hrest : firstMatch excluded kind value target rs = .error e) :
        ∃ rule ∈ r :: rs, ruleMatches rule kind value target = .error e := by
      obtain ⟨rule, hmem, hrule⟩ := ih hrest
      exact ⟨rule, List.mem_cons_of_mem _ hmem, hrule⟩
    by_cases hr : r.excluded = excluded
    · rw [if_pos (by simpa using hr)] at h
      cases hm : ruleMatches r kind value target with
      | error e' =>
        obtain rfl : e' = e := by simpa [hm, bind, Except.bind] using h
        exact ⟨r, List.mem_cons_self, hm⟩
      | ok b =>
        cases b with
        | true => simp [hm, bind, Except.bind, pure, Except.pure] at h
        | false => exact hlater (by simpa [hm, bind, Except.bind, pure, Except.pure] using h)
    · rw [if_neg (by simpa using hr)] at h
      exact hlater (by simpa [bind, Except.bind, pure, Except.pure] using h)

/-! ## The verdict that a decision states -/

/-- The rule holds for the target. -/
def Covers (target : Text) (rule : ScopeRule) : Prop :=
  ∃ kind value, normalizeTarget target = some (kind, value) ∧
    ruleMatches rule kind value target = .ok true

/-- The exclusions among the rules, and the inclusions. -/
def exclusions (rules : List ScopeRule) : Set ScopeRule := {r | r ∈ rules ∧ r.excluded = true}
def inclusions (rules : List ScopeRule) : Set ScopeRule := {r | r ∈ rules ∧ r.excluded = false}

/-- The reason of a verdict. -/
def reasonOf : Verdict → Reason
  | .denied => .targetExcluded
  | .permitted => .allowed
  | .undecided => .targetOutOfScope

omit [Unicode] in
theorem reasonOf_eq_allowed {v : Verdict} : reasonOf v = .allowed ↔ v = .permitted := by
  cases v <;> simp [reasonOf]

/-- What is to be decided about a target: the gate's reason, or the verdict of the rules. -/
noncomputable def verdictReason (candidate : PolicyInput) : Reason :=
  if (evaluateEngagement candidate).allowed then
    if (normalizeTarget candidate.target).isSome then
      reasonOf (verdict (exclusions candidate.scopeRules) (inclusions candidate.scopeRules)
        (Covers candidate.target))
    else .scopeAmbiguous
  else (evaluateEngagement candidate).reason

/-- A decision that gives this reason, and allows exactly when the reason says so. -/
structure States (d : PolicyDecision) (reason : Reason) : Prop where
  reason_eq : d.reason = reason
  allowed_iff : d.allowed = true ↔ reason = .allowed

omit [Unicode] in
theorem States.unique {d d' : PolicyDecision} {reason : Reason} (h : States d reason)
    (h' : States d' reason) : d'.allowed = d.allowed ∧ d'.reason = d.reason := by
  refine ⟨?_, h'.reason_eq.trans h.reason_eq.symm⟩
  rw [Bool.eq_iff_iff, h.allowed_iff, h'.allowed_iff]

omit [Unicode] in
theorem deny_states {reason : Reason} (detail : String) (h : reason ≠ .allowed) :
    States (deny reason detail) reason := ⟨rfl, by simp [deny, h]⟩

omit [Unicode] in
theorem allowed_states (detail : String) : States ⟨true, .allowed, detail⟩ .allowed :=
  ⟨rfl, by simp⟩

omit [Unicode] in
theorem evaluateAuthorization_states (auth : AuthorizationSnapshot) (capability : String)
    (now : DateTime) : States (evaluateAuthorization auth capability now)
      (evaluateAuthorization auth capability now).reason := by
  unfold evaluateAuthorization
  split_ifs
  · exact deny_states _ (by decide)
  · exact deny_states _ (by decide)
  · exact deny_states _ (by decide)
  · exact deny_states _ (by decide)
  · exact allowed_states _

omit [Unicode] in
/-- The gates allow exactly when their reason says so. -/
theorem evaluateEngagement_states (candidate : PolicyInput) :
    States (evaluateEngagement candidate) (evaluateEngagement candidate).reason := by
  unfold evaluateEngagement
  by_cases hstop : candidate.stopWork = true
  · rw [if_pos hstop]
    exact deny_states _ (by decide)
  rw [if_neg hstop]
  by_cases hstatus : (candidate.engagementStatus != activeEngagementStatus) = true
  · rw [if_pos hstatus]
    exact deny_states _ (by decide)
  rw [if_neg hstatus]
  cases candidate.authorization with
  | none =>
    dsimp only
    split
    · exact allowed_states _
    · exact deny_states _ (by decide)
  | some auth => exact evaluateAuthorization_states auth _ _

theorem evaluateScope_states {candidate : PolicyInput} {kind : TargetKind} {value : Text}
    {d : PolicyDecision} (hn : normalizeTarget candidate.target = some (kind, value))
    (h : evaluateScope candidate kind value = .ok d) :
    States d (reasonOf (verdict (exclusions candidate.scopeRules)
      (inclusions candidate.scopeRules) (Covers candidate.target))) := by
  have hcovers : ∀ rule, Covers candidate.target rule ↔
      ruleMatches rule kind value candidate.target = .ok true := by
    intro rule
    constructor
    · rintro ⟨k, v, hkv, hm⟩
      obtain ⟨rfl, rfl⟩ := Prod.mk.inj (Option.some.inj (hn.symm.trans hkv))
      exact hm
    · exact fun hm => ⟨kind, value, hn, hm⟩
  have hmissed : ∀ {excluded : Bool},
      firstMatch excluded kind value candidate.target candidate.scopeRules = .ok none →
      ∀ rule ∈ candidate.scopeRules, rule.excluded = excluded → ¬ Covers candidate.target rule := by
    intro excluded hnone rule hmem hpolarity hcov
    have hfalse := firstMatch_eq_none hnone rule hmem hpolarity
    rw [(hcovers rule).mp hcov] at hfalse
    simp at hfalse
  simp only [evaluateScope] at h
  cases hx : firstMatch true kind value candidate.target candidate.scopeRules with
  | error e => simp [hx, bind, Except.bind] at h
  | ok excluding =>
    cases excluding with
    | some rule =>
      obtain ⟨hmem, hexcluded, hm⟩ := firstMatch_eq_some hx
      have hv : verdict (exclusions candidate.scopeRules) (inclusions candidate.scopeRules)
          (Covers candidate.target) = .denied :=
        verdict_eq_denied.mpr ⟨rule, ⟨hmem, hexcluded⟩, (hcovers rule).mpr hm⟩
      simp only [hx, bind, Except.bind, pure, Except.pure, Except.ok.injEq] at h
      rw [hv, ← h]
      exact deny_states _ (by decide)
    | none =>
      have hfree : ¬ ∃ r ∈ exclusions candidate.scopeRules, Covers candidate.target r := by
        rintro ⟨r, hr, hcov⟩
        exact hmissed hx r hr.1 hr.2 hcov
      cases hi : firstMatch false kind value candidate.target candidate.scopeRules with
      | error e => simp [hx, hi, bind, Except.bind] at h
      | ok including =>
        simp only [hx, hi, bind, Except.bind, pure, Except.pure] at h
        cases including with
        | some rule =>
          obtain ⟨hmem, hincluded, hm⟩ := firstMatch_eq_some hi
          have hv : verdict (exclusions candidate.scopeRules) (inclusions candidate.scopeRules)
              (Covers candidate.target) = .permitted :=
            verdict_eq_permitted.mpr ⟨hfree, rule, ⟨hmem, hincluded⟩, (hcovers rule).mpr hm⟩
          rw [hv, ← Except.ok.inj h]
          exact allowed_states _
        | none =>
          have hunlisted :
              ¬ ∃ r ∈ inclusions candidate.scopeRules, Covers candidate.target r := by
            rintro ⟨r, hr, hcov⟩
            exact hmissed hi r hr.1 hr.2 hcov
          have hv : verdict (exclusions candidate.scopeRules) (inclusions candidate.scopeRules)
              (Covers candidate.target) = .undecided :=
            verdict_eq_undecided.mpr ⟨hfree, hunlisted⟩
          rw [hv, ← Except.ok.inj h]
          exact deny_states _ (by decide)

/-- The evaluator states the verdict of the rules as sets. -/
theorem evaluate_states {candidate : PolicyInput} {d : PolicyDecision}
    (h : evaluate candidate = .ok d) : States d (verdictReason candidate) := by
  have hgate := evaluateEngagement_states candidate
  unfold verdictReason
  simp only [evaluate] at h
  by_cases hg : (evaluateEngagement candidate).allowed = true
  · rw [if_neg (by simp [hg])] at h
    rw [if_pos hg]
    cases hn : normalizeTarget candidate.target with
    | none =>
      rw [hn] at h
      rw [if_neg (by simp), ← Except.ok.inj h]
      exact deny_states _ (by decide)
    | some p =>
      rw [hn] at h
      rw [if_pos (by simp)]
      exact evaluateScope_states hn h
  · rw [if_pos (by simp [hg])] at h
    rw [if_neg hg, ← Except.ok.inj h]
    exact hgate

/-! ## Several targets -/

/-- The reason for a list of targets: the gate's, or that of the first target that is not
allowed. -/
noncomputable def verdictReasons (candidate : PolicyInput) (targets : List Text) : Reason :=
  if (evaluateEngagement candidate).allowed then
    ((targets.map fun target => verdictReason { candidate with target }).find?
      (· ≠ .allowed)).getD .allowed
  else (evaluateEngagement candidate).reason

theorem evaluateTargets_states {candidate : PolicyInput} {targets : List Text}
    {d : PolicyDecision} (h : evaluateTargets candidate targets = .ok d) :
    States d (((targets.map fun target => verdictReason { candidate with target }).find?
      (· ≠ .allowed)).getD .allowed) := by
  induction targets with
  | nil =>
    obtain rfl := Except.ok.inj h
    exact allowed_states _
  | cons target targets ih =>
    simp only [evaluateTargets] at h
    cases hd : evaluate { candidate with target } with
    | error e => simp [hd, bind, Except.bind] at h
    | ok d₁ =>
      have hstates := evaluate_states hd
      simp only [hd, bind, Except.bind, pure, Except.pure] at h
      rw [List.map_cons]
      by_cases hallowed : d₁.allowed = true
      · rw [if_pos hallowed] at h
        rw [List.find?_cons_of_neg (by simpa using hstates.allowed_iff.mp hallowed)]
        exact ih h
      · rw [if_neg hallowed] at h
        have hne : verdictReason { candidate with target } ≠ .allowed :=
          fun heq => hallowed (hstates.allowed_iff.mpr heq)
        rw [List.find?_cons_of_pos (by simpa using hne), Option.getD_some, ← Except.ok.inj h]
        exact hstates

theorem evaluateAll_states {candidate : PolicyInput} {targets : List Text} {d : PolicyDecision}
    (h : evaluateAll candidate targets = .ok d) : States d (verdictReasons candidate targets) := by
  unfold verdictReasons
  simp only [evaluateAll] at h
  by_cases hg : (evaluateEngagement candidate).allowed = true
  · rw [if_neg (by simp [hg])] at h
    rw [if_pos hg]
    exact evaluateTargets_states h
  · rw [if_pos (by simp [hg])] at h
    rw [if_neg hg, ← Except.ok.inj h]
    exact evaluateEngagement_states candidate

/-- A list of targets is allowed when the gates pass and each target is allowed. -/
theorem verdictReasons_eq_allowed {candidate : PolicyInput} {targets : List Text} :
    verdictReasons candidate targets = .allowed ↔
      (evaluateEngagement candidate).allowed = true ∧
        ∀ target ∈ targets, verdictReason { candidate with target } = .allowed := by
  have hgate := (evaluateEngagement_states candidate).allowed_iff
  unfold verdictReasons
  by_cases hg : (evaluateEngagement candidate).allowed = true
  · rw [if_pos hg]
    simp only [hg, true_and]
    cases hf : (targets.map fun target => verdictReason { candidate with target }).find?
        (· ≠ .allowed) with
    | none =>
      simp only [Option.getD_none, true_iff]
      intro target hmem
      have := List.find?_eq_none.mp hf _ (List.mem_map_of_mem hmem)
      simpa using this
    | some reason =>
      have hne : reason ≠ .allowed := by simpa using List.find?_some hf
      obtain ⟨target, hmem, heq⟩ := List.mem_map.mp (List.mem_of_find?_eq_some hf)
      simp only [Option.getD_some, hne, false_iff]
      intro hall
      exact hne (heq.symm.trans (hall target hmem))
  · rw [if_neg hg]
    simp only [hg, Bool.false_eq_true, false_and, iff_false]
    exact fun heq => hg (hgate.mpr heq)

/-! ## What raises -/

/-- Comparing the rule with the target raises. -/
def Raises (target : Text) (e : Exn) (rule : ScopeRule) : Prop :=
  ∃ kind value, normalizeTarget target = some (kind, value) ∧
    ruleMatches rule kind value target = .error e

theorem evaluate_eq_error {candidate : PolicyInput} {e : Exn}
    (h : evaluate candidate = .error e) :
    ∃ rule ∈ candidate.scopeRules, Raises candidate.target e rule := by
  simp only [evaluate] at h
  by_cases hg : (evaluateEngagement candidate).allowed = true
  swap
  · rw [if_pos (by simp [hg])] at h
    simp at h
  rw [if_neg (by simp [hg])] at h
  cases hn : normalizeTarget candidate.target with
  | none => simp [hn] at h
  | some p =>
    obtain ⟨kind, value⟩ := p
    simp only [hn, evaluateScope] at h
    have hraises {excluded : Bool}
        (hwalk : firstMatch excluded kind value candidate.target candidate.scopeRules = .error e) :
        ∃ rule ∈ candidate.scopeRules, Raises candidate.target e rule := by
      obtain ⟨rule, hmem, hm⟩ := firstMatch_eq_error hwalk
      exact ⟨rule, hmem, kind, value, hn, hm⟩
    cases hx : firstMatch true kind value candidate.target candidate.scopeRules with
    | error e' =>
      obtain rfl : e' = e := by simpa [hx, bind, Except.bind] using h
      exact hraises hx
    | ok excluding =>
      cases excluding with
      | some rule => simp [hx, bind, Except.bind, pure, Except.pure] at h
      | none =>
        cases hi : firstMatch false kind value candidate.target candidate.scopeRules with
        | error e' =>
          obtain rfl : e' = e := by simpa [hx, hi, bind, Except.bind] using h
          exact hraises hi
        | ok including =>
          cases including <;> simp [hx, hi, bind, Except.bind, pure, Except.pure] at h

theorem evaluateTargets_eq_error {candidate : PolicyInput} {targets : List Text} {e : Exn}
    (h : evaluateTargets candidate targets = .error e) :
    ∃ target ∈ targets, ∃ rule ∈ candidate.scopeRules, Raises target e rule := by
  induction targets with
  | nil => simp [evaluateTargets] at h
  | cons target targets ih =>
    simp only [evaluateTargets] at h
    cases hd : evaluate { candidate with target } with
    | error e' =>
      obtain rfl : e' = e := by simpa [hd, bind, Except.bind] using h
      exact ⟨target, List.mem_cons_self, evaluate_eq_error hd⟩
    | ok d =>
      simp only [hd, bind, Except.bind, pure, Except.pure] at h
      by_cases hallowed : d.allowed = true
      · rw [if_pos hallowed] at h
        obtain ⟨t, ht, hraises⟩ := ih h
        exact ⟨t, List.mem_cons_of_mem _ ht, hraises⟩
      · rw [if_neg hallowed] at h
        simp at h

theorem evaluateAll_eq_error {candidate : PolicyInput} {targets : List Text} {e : Exn}
    (h : evaluateAll candidate targets = .error e) :
    ∃ target ∈ targets, ∃ rule ∈ candidate.scopeRules, Raises target e rule := by
  simp only [evaluateAll] at h
  by_cases hg : (evaluateEngagement candidate).allowed = true
  · rw [if_neg (by simp [hg])] at h
    exact evaluateTargets_eq_error h
  · rw [if_pos (by simp [hg])] at h
    simp at h

/-! ## Other rules -/

/-- The verdict depends on which exclusions and inclusions there are, not on their order. -/
theorem verdictReason_congr {candidate : PolicyInput} {rules : List ScopeRule}
    (hrules : ∀ r, r ∈ rules ↔ r ∈ candidate.scopeRules) :
    verdictReason { candidate with scopeRules := rules } = verdictReason candidate := by
  have hexclusions : exclusions rules = exclusions candidate.scopeRules :=
    Set.ext fun r => and_congr_left' (hrules r)
  have hinclusions : inclusions rules = inclusions candidate.scopeRules :=
    Set.ext fun r => and_congr_left' (hrules r)
  unfold verdictReason
  rw [show (⟨candidate.engagementStatus, candidate.engagementType, candidate.target,
    candidate.capability, candidate.now, candidate.stopWork, candidate.authorization,
    rules⟩ : PolicyInput).scopeRules = rules from rfl, hexclusions, hinclusions]
  rfl

theorem verdictReasons_congr {candidate : PolicyInput} {rules : List ScopeRule}
    (hrules : ∀ r, r ∈ rules ↔ r ∈ candidate.scopeRules) (targets : List Text) :
    verdictReasons { candidate with scopeRules := rules } targets =
      verdictReasons candidate targets := by
  have heach : ∀ target, verdictReason { candidate with scopeRules := rules, target } =
      verdictReason { candidate with target } := fun target =>
    @verdictReason_congr _ { candidate with target } rules hrules
  unfold verdictReasons
  simp only [heach]
  rfl

/-- What is allowed under more exclusions and fewer inclusions is allowed. -/
theorem verdictReason_mono {candidate : PolicyInput} {rules : List ScopeRule}
    (hexclusions : exclusions candidate.scopeRules ⊆ exclusions rules)
    (hinclusions : inclusions rules ⊆ inclusions candidate.scopeRules)
    (h : verdictReason { candidate with scopeRules := rules } = .allowed) :
    verdictReason candidate = .allowed := by
  have hgate := (evaluateEngagement_states candidate).allowed_iff
  unfold verdictReason at h ⊢
  by_cases hg : (evaluateEngagement candidate).allowed = true
  · rw [if_pos hg]
    rw [if_pos (show (evaluateEngagement { candidate with scopeRules := rules }).allowed = true
      from hg)] at h
    by_cases hn : (normalizeTarget candidate.target).isSome = true
    · rw [if_pos hn] at h ⊢
      rw [reasonOf_eq_allowed] at h ⊢
      exact verdict_permitted_mono hexclusions hinclusions h
    · rw [if_neg hn] at h
      cases h
  · rw [if_neg (show ¬ (evaluateEngagement { candidate with scopeRules := rules }).allowed = true
      from hg)] at h
    exact absurd (hgate.mpr h) hg

theorem verdictReasons_mono {candidate : PolicyInput} {rules : List ScopeRule}
    (hexclusions : exclusions candidate.scopeRules ⊆ exclusions rules)
    (hinclusions : inclusions rules ⊆ inclusions candidate.scopeRules) {targets : List Text}
    (h : verdictReasons { candidate with scopeRules := rules } targets = .allowed) :
    verdictReasons candidate targets = .allowed := by
  obtain ⟨hgate, hall⟩ := verdictReasons_eq_allowed.mp h
  refine verdictReasons_eq_allowed.mpr ⟨hgate, fun target hmem => ?_⟩
  exact @verdictReason_mono _ { candidate with target } rules hexclusions hinclusions
    (hall target hmem)

/-- The rules once an exclusion was put somewhere among them, or in the place of an inclusion
of its value and kind. -/
inductive Restricts : List ScopeRule → List ScopeRule → Prop
  | adding (before after : List ScopeRule) (rule : ScopeRule) (hexcluded : rule.excluded = true) :
      Restricts (before ++ after) (before ++ rule :: after)
  | turning (before after : List ScopeRule) (rule : ScopeRule) (hincluded : rule.excluded = false) :
      Restricts (before ++ rule :: after) (before ++ { rule with excluded := true } :: after)

omit [Unicode] in
theorem Restricts.subset {rules rules' : List ScopeRule} (h : Restricts rules rules') :
    exclusions rules ⊆ exclusions rules' ∧ inclusions rules' ⊆ inclusions rules := by
  cases h with
  | adding before after rule hexcluded =>
    refine ⟨fun r ⟨hmem, hr⟩ => ⟨?_, hr⟩, fun r ⟨hmem, hr⟩ => ⟨?_, hr⟩⟩
    · rcases List.mem_append.mp hmem with hmem | hmem <;> simp [hmem]
    · rcases List.mem_append.mp hmem with hmem | hmem
      · simp [hmem]
      · rcases List.mem_cons.mp hmem with rfl | hmem
        · simp [hexcluded] at hr
        · simp [hmem]
  | turning before after rule hincluded =>
    refine ⟨fun r ⟨hmem, hr⟩ => ⟨?_, hr⟩, fun r ⟨hmem, hr⟩ => ⟨?_, hr⟩⟩
    · rcases List.mem_append.mp hmem with hmem | hmem
      · simp [hmem]
      · rcases List.mem_cons.mp hmem with rfl | hmem
        · simp [hincluded] at hr
        · simp [hmem]
    · rcases List.mem_append.mp hmem with hmem | hmem
      · simp [hmem]
      · rcases List.mem_cons.mp hmem with rfl | hmem
        · simp at hr
        · simp [hmem]

/-- What a domain rule admits as an inclusion it covers as an exclusion. -/
theorem excludesHost_of_hostMatches {ruleValue host : Text} (h : hostMatches ruleValue host = true) :
    excludesHost ruleValue host = true := by
  unfold hostMatches at h
  unfold excludesHost
  split at h
  · simp at h
  · exact h
  · exact h
  · simp [h]

theorem Covers.excluding {target : Text} {rule : ScopeRule} (h : Covers target rule) :
    Covers target { rule with excluded := true } := by
  obtain ⟨kind, value, hn, hm⟩ := h
  refine ⟨kind, value, hn, ?_⟩
  unfold ruleMatches at hm ⊢
  rw [show ({ rule with excluded := true } : ScopeRule).text = rule.text from rfl]
  dsimp only at hm ⊢
  by_cases hblank : rule.text.isEmpty = true
  · simp [hblank] at hm
  rw [if_neg hblank] at hm ⊢
  by_cases hcidr : (rule.kind == "cidr") = true
  · rw [if_pos hcidr] at hm ⊢
    exact hm
  rw [if_neg hcidr] at hm ⊢
  by_cases hurl : (rule.kind == "url" || rule.kind == "api") = true
  · rw [if_pos hurl] at hm ⊢
    exact hm
  rw [if_neg hurl] at hm ⊢
  by_cases hip : (kind == .ip) = true
  · rw [if_pos hip] at hm ⊢
    exact hm
  rw [if_neg hip] at hm ⊢
  rw [if_pos rfl]
  by_cases hexcluded : rule.excluded = true
  · rwa [if_pos hexcluded] at hm
  · rw [if_neg hexcluded] at hm
    rw [excludesHost_of_hostMatches (Except.ok.inj hm)]

/-- A list of targets that is allowed was decided target by target. -/
theorem evaluateTargets_allowed {candidate : PolicyInput} {targets : List Text}
    {d : PolicyDecision} (h : evaluateTargets candidate targets = .ok d) (ha : d.allowed = true) :
    ∀ target ∈ targets, ∃ dt, evaluate { candidate with target } = .ok dt ∧ dt.allowed = true := by
  induction targets with
  | nil => simp
  | cons target targets ih =>
    simp only [evaluateTargets] at h
    cases hd : evaluate { candidate with target } with
    | error e => simp [hd, bind, Except.bind] at h
    | ok d₁ =>
      simp only [hd, bind, Except.bind, pure, Except.pure] at h
      by_cases hallowed : d₁.allowed = true
      · rw [if_pos hallowed] at h
        intro t hmem
        rcases List.mem_cons.mp hmem with rfl | hmem
        · exact ⟨d₁, hd, hallowed⟩
        · exact ih h t hmem
      · rw [if_neg hallowed] at h
        rw [Except.ok.inj h] at hallowed
        exact absurd ha hallowed

/-! ## The laws of the decision -/

/-- Exclusions dominate, in any order of the rules. Each law is about decisions that are
returned; `raises` and `raises_all` say when none is. -/
structure ExclusionsDominate : Prop where
  order : ∀ {candidate rules d d'}, rules.Perm candidate.scopeRules →
    evaluate candidate = .ok d → evaluate { candidate with scopeRules := rules } = .ok d' →
      d'.allowed = d.allowed ∧ d'.reason = d.reason
  order_all : ∀ {candidate rules targets d d'}, rules.Perm candidate.scopeRules →
    evaluateAll candidate targets = .ok d →
      evaluateAll { candidate with scopeRules := rules } targets = .ok d' →
        d'.allowed = d.allowed ∧ d'.reason = d.reason
  raises : ∀ {candidate e}, evaluate candidate = .error e →
    ∃ rule ∈ candidate.scopeRules, Raises candidate.target e rule
  raises_all : ∀ {candidate targets e}, evaluateAll candidate targets = .error e →
    ∃ target ∈ targets, ∃ rule ∈ candidate.scopeRules, Raises target e rule
  excluded : ∀ {candidate rule d}, (evaluateEngagement candidate).allowed = true →
    rule ∈ candidate.scopeRules → rule.excluded = true → Covers candidate.target rule →
      evaluate candidate = .ok d → d.allowed = false ∧ d.reason = .targetExcluded
  restricting : ∀ {candidate rules d d'}, Restricts candidate.scopeRules rules →
    evaluate candidate = .ok d → d.allowed = false →
      evaluate { candidate with scopeRules := rules } = .ok d' → d'.allowed = false
  restricting_all : ∀ {candidate rules targets d d'}, Restricts candidate.scopeRules rules →
    evaluateAll candidate targets = .ok d → d.allowed = false →
      evaluateAll { candidate with scopeRules := rules } targets = .ok d' → d'.allowed = false
  covers : ∀ {target rule}, rule.excluded = false → Covers target rule →
    Covers target { rule with excluded := true }
  all_iff : ∀ {candidate targets d}, evaluateAll candidate targets = .ok d →
    (d.allowed = true ↔ (evaluateEngagement candidate).allowed = true ∧
      ∀ target ∈ targets, ∃ dt, evaluate { candidate with target } = .ok dt ∧ dt.allowed = true)

end VardrMap.Policy
