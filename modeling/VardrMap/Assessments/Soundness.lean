import VardrMap.Assessments

/-!
# What an assessed run has established

An identity is marked evaluated only after every gate of the assessment passed for it;
`evaluated_sound` collects what those gates looked at. The status of the run and its
reasons are two readings of the same items.
-/
namespace VardrMap
open Lib

variable [Unicode]

omit [Unicode] in
theorem exists_of_mem_forall₂ {α β : Type} {R : α → β → Prop} {l : List α} {out : List β}
    (h : List.Forall₂ R l out) {b : β} (hb : b ∈ out) : ∃ a ∈ l, R a b := by
  induction h with
  | nil => simp at hb
  | cons hab _ ih =>
    rcases List.mem_cons.mp hb with rfl | hb
    · exact ⟨_, List.mem_cons_self, hab⟩
    · obtain ⟨a, ha, hr⟩ := ih hb
      exact ⟨a, List.mem_cons_of_mem _ ha, hr⟩

omit [Unicode] in
theorem exists_of_mem_forall₂' {α β : Type} {R : α → β → Prop} {l : List α} {out : List β}
    (h : List.Forall₂ R l out) {a : α} (ha : a ∈ l) : ∃ b ∈ out, R a b :=
  (exists_of_mem_forall₂ h.flip ha).imp fun _ hb => hb

omit [Unicode] in
theorem forall₂_comp {α β γ : Type} {R : α → β → Prop} {S : β → γ → Prop} {T : α → γ → Prop}
    {l : List α} {m : List β} {n : List γ} (h : List.Forall₂ R l m) (h' : List.Forall₂ S m n)
    (hcomp : ∀ a b c, R a b → S b c → T a c) : List.Forall₂ T l n := by
  induction h generalizing n with
  | nil =>
    cases h'
    exact .nil
  | cons hab _ ih =>
    cases h' with
    | cons hbc hrest => exact .cons (hcomp _ _ _ hab hbc) (ih hrest)

/-! ## What the gates look at -/

/-- The only execution of an identity reports an outcome that its status code bears
out. -/
def StatusAgrees (spec execution : Json) : Prop :=
  ∃ status, httpStatus? execution = some status ∧ errorFree execution = true ∧
    (success status = true ∧ soleOutcome [execution] = "allow" ∨
      reportsDeny spec (soleOutcome [execution]) status = .ok true)

/-- The only semantic row of an identity is consistent, and its source is bound to the
case: matched assertions of the identity, or the write oracle of the case. -/
structure BoundBy (spec configured execution : Json) (expected : Json) (row : SemanticRow) :
    Prop where
  consistent : expected = .str row.expectedAccess
  decided : row.decision = "allowed" ∨ row.decision = "denied"
  baseline : expected = .str "allow" → row.decision = "allowed"
  bound : row.source = "response_assertion" ∧
      responseBound configured execution row (decisionText row) = true ∨
    row.source = "write_verification" ∧
      writeBound spec execution row (decisionText row) = true

/-- Everything that was established about an evaluated identity. -/
structure SoundlyEvaluated (spec : Json) (executions : List Json) (verified : Bool)
    (session : Session) (expected : List (Json × Json)) (reported : List (String × Json))
    (rows : List SemanticRow) (item : IdentityItem) : Prop where
  case_verified : verified = true
  session_ok : session.status = .passed ∨ session.status = .notConfigured
  one_expectation : ∃ d, decisionsFor expected item.identityId = [d] ∧ d = item.expectedDecision ∧
    d ≠ .str "skip" ∧ d ≠ .str "unknown"
  evidence : ∃ expectations, expectationsFor spec item.identityId = .ok expectations ∧
    if isProtectedBy spec (configuredOf expectations) then
      ∃ row execution, (rows.filter fun r => item.identityId == .str r.identityId) = [row] ∧
        executionsFor executions item.identityId = .ok [execution] ∧
        BoundBy spec (configuredOf expectations) execution item.expectedDecision row
    else
      ∃ execution, reportedUnder reported item.identityId = [execution] ∧
        StatusAgrees spec execution

/-! ## One lemma for each step -/

omit [Unicode] in
/-- Executions alone evaluate an identity only when the only one agrees with its
code. -/
theorem executionState_evaluated {spec decision row : Json} {outcome reason : String}
    (h : executionState spec decision row outcome = .ok (.evaluated, reason)) :
    ∃ status, httpStatus? row = some status ∧ errorFree row = true ∧
      (success status = true ∧ outcome = "allow" ∨ reportsDeny spec outcome status = .ok true) := by
  simp only [executionState] at h
  obtain ⟨deny, hdeny, h⟩ := bind_eq_ok h
  split at h
  · simp [pure, Except.pure] at h
  rename_i herror
  split at h
  · simp [pure, Except.pure] at h
  rename_i hagree
  unfold reportedDeny at hdeny
  cases hs : httpStatus? row with
  | none =>
    obtain rfl : false = deny := by simpa [hs] using hdeny
    simp [hs] at hagree
  | some status =>
    simp only [hs, Option.any_some] at hdeny hagree
    refine ⟨status, rfl, by simpa using herror, ?_⟩
    cases deny with
    | true => exact .inr hdeny
    | false =>
      simp only [Bool.or_false, Bool.not_eq_true', Bool.not_eq_false, Bool.and_eq_true,
        beq_iff_eq] at hagree
      exact .inl hagree

theorem rowsState_eq_ok {spec decision : Json} {rows : List Json} {state : IdentityState}
    {reason : String} (h : rowsState spec decision rows = .ok (state, reason)) :
    (state ≠ .skipped → decision ≠ .str "skip" ∧ decision ≠ .str "unknown") ∧
    (state = .evaluated → ∃ execution, rows = [execution] ∧ StatusAgrees spec execution) := by
  unfold rowsState at h
  split at h
  · obtain ⟨rfl, rfl⟩ := Prod.mk.inj (Except.ok.inj h)
    exact ⟨fun hs => absurd rfl hs, fun hs => by simp at hs⟩
  rename_i hdecision
  simp only [Bool.or_eq_true, beq_iff_eq, not_or] at hdecision
  refine ⟨fun _ => hdecision, ?_⟩
  rintro rfl
  split at h
  · simp at h
  · exact ⟨_, rfl, executionState_evaluated h⟩
  · simp at h

/-- What the executions alone say about an identity. -/
theorem assessIdentity_eq_ok {spec identity : Json} {expected : List (Json × Json)}
    {reported : List (String × Json)} {item : IdentityItem}
    (h : assessIdentity spec expected reported identity = .ok item) :
    identity.item "id" = .ok item.identityId ∧
    item.expectedDecision = soleDecision (decisionsFor expected item.identityId) ∧
    (item.state ≠ .skipped → item.expectedDecision ≠ .str "skip" ∧
      item.expectedDecision ≠ .str "unknown") ∧
    (item.state = .evaluated → ∃ execution,
      reportedUnder reported item.identityId = [execution] ∧ StatusAgrees spec execution) := by
  unfold assessIdentity at h
  obtain ⟨key, hkey, h⟩ := bind_eq_ok h
  obtain ⟨identityId, hid, h⟩ := bind_eq_ok h
  obtain ⟨decision, hdecision, h⟩ := bind_eq_ok h
  obtain ⟨⟨state, reason⟩, hstate, h⟩ := bind_eq_ok h
  obtain rfl := Except.ok.inj h
  obtain ⟨hnotSkipped, hevaluated⟩ := rowsState_eq_ok hstate
  exact ⟨Json.asKey_eq_ok hid ▸ hkey, Json.asKey_eq_ok hdecision, hnotSkipped, hevaluated⟩

omit [Unicode] in
/-- With no protection of the identity, no source but the executions evaluates it. -/
theorem sourceValid_unprotected {spec configured execution : Json} {item : IdentityItem}
    {row : SemanticRow} {decision : String} (hfree : isProtectedBy spec configured = false)
    (h : sourceValid spec configured execution false item row decision = true) :
    item.state = .evaluated := by
  simp only [isProtectedBy, Json.orElse] at hfree
  have hassertions : (configured.field "response_assertions").truthy = false := by
    by_contra hno
    simp [Bool.eq_true_of_not_eq_false hno] at hfree
  rw [if_neg (by simp [hassertions])] at hfree
  unfold sourceValid at h
  split at h
  · -- no rule of the case can be matched
    unfold responseBound at h
    rw [Json.orElse, if_neg (by simp [hassertions])] at h
    split at h
    · rename_i rules status hrules hstatus
      obtain rfl : [] = rules := Json.arr.inj hrules
      simp only [Bool.and_eq_true, Bool.not_eq_true', List.all_eq_true] at h
      obtain ⟨i, is, hi⟩ := List.exists_cons_of_ne_nil
        (l := row.matchedAssertions) (by simpa using h.1.1)
      have := h.2 i (hi ▸ List.mem_cons_self)
      simp [ruleHolds] at this
    · simp at h
  split at h
  · -- the case has no write oracle
    have horacle : (oracleOf spec).truthy = false := by
      unfold oracleOf objOrEmpty
      split
      · exact hfree
      · rfl
    simp only [writeBound, horacle, Bool.false_and] at h
    split at h <;> simp at h
  split at h
  · simp only [Bool.and_eq_true, beq_iff_eq] at h
    exact h.1
  · simp at h

omit [Unicode] in
/-- With protection, only a bound row evaluates. -/
theorem sourceValid_protected {spec configured execution : Json} {item : IdentityItem}
    {row : SemanticRow} {decision : String}
    (h : sourceValid spec configured execution true item row decision = true) :
    row.source = "response_assertion" ∧ responseBound configured execution row decision = true ∨
      row.source = "write_verification" ∧ writeBound spec execution row decision = true := by
  unfold sourceValid at h
  split at h
  · rename_i hsource
    simp only [Bool.and_eq_true, beq_iff_eq] at hsource
    exact .inl ⟨hsource.1.1, h⟩
  split at h
  · rename_i hsource
    exact .inr ⟨by simpa using hsource, h⟩
  · simp at h

omit [Unicode] in
/-- A row that leaves its identity evaluated was decided, matched one execution, and
passed the check of its source. -/
theorem applyRow_evaluated {spec configured : Json} {isProtected verified : Bool}
    {executions : List Json} {item out : IdentityItem} {row : SemanticRow}
    (h : applyRow spec configured isProtected executions verified item row = .ok out)
    (hev : out.state = .evaluated) :
    item.state ≠ .skipped ∧ (row.decision = "allowed" ∨ row.decision = "denied") ∧
      (item.expectedDecision = .str "allow" → decisionText row = "allow") ∧
      ∃ execution, executionsFor executions item.identityId = .ok [execution] ∧
        sourceValid spec configured execution isProtected item row (decisionText row) = true := by
  unfold applyRow at h
  split at h
  · rename_i hs
    obtain rfl := Except.ok.inj h
    simp [hev] at hs
  rename_i hs
  split at h
  · obtain rfl := Except.ok.inj h
    simp [IdentityItem.update] at hev
  split at h
  · obtain rfl := Except.ok.inj h
    simp [IdentityItem.update] at hev
  rename_i hd
  obtain ⟨actual, hactual, h⟩ := bind_eq_ok h
  split at h
  swap
  · obtain rfl := Except.ok.inj h
    simp [IdentityItem.update] at hev
  rename_i execution
  obtain ⟨matches_, -, h⟩ := bind_eq_ok h
  split at h
  swap
  · obtain rfl := Except.ok.inj h
    simp [IdentityItem.update] at hev
  obtain rfl := Except.ok.inj h
  unfold concludeRow at hev
  split at hev
  swap
  · simp [IdentityItem.update] at hev
  rename_i hvalid
  split at hev
  · simp [IdentityItem.update] at hev
  rename_i hbase
  refine ⟨by simpa using hs, ?_, ?_, execution, hactual, hvalid⟩
  · by_contra hno
    simp only [not_or] at hno
    simp [hno.1, hno.2] at hd
  · intro hallow
    by_contra hno
    exact hbase (by simp [hallow, hno])

omit [Unicode] in
/-- The step keeps which identity is assessed against which expectation. -/
theorem applySemantics_keeps {spec : Json} {executions : List Json} {rows : List SemanticRow}
    {verified : Bool} {item out : IdentityItem}
    (h : applySemantics spec executions rows verified item = .ok out) :
    out.identityId = item.identityId ∧ out.expectedDecision = item.expectedDecision := by
  unfold applySemantics at h
  obtain ⟨expectations, -, h⟩ := bind_eq_ok h
  dsimp only at h
  split at h
  · split at h <;> · obtain rfl := Except.ok.inj h; exact ⟨rfl, rfl⟩
  · split at h
    swap
    · obtain rfl := Except.ok.inj h
      exact ⟨rfl, rfl⟩
    unfold applyRow at h
    split at h
    · obtain rfl := Except.ok.inj h
      exact ⟨rfl, rfl⟩
    split at h
    · obtain rfl := Except.ok.inj h
      exact ⟨rfl, rfl⟩
    split at h
    · obtain rfl := Except.ok.inj h
      exact ⟨rfl, rfl⟩
    obtain ⟨actual, -, h⟩ := bind_eq_ok h
    split at h
    swap
    · obtain rfl := Except.ok.inj h
      exact ⟨rfl, rfl⟩
    obtain ⟨matches_, -, h⟩ := bind_eq_ok h
    split at h
    swap
    · obtain rfl := Except.ok.inj h
      exact ⟨rfl, rfl⟩
    obtain rfl := Except.ok.inj h
    unfold concludeRow
    split
    · split <;> exact ⟨rfl, rfl⟩
    · exact ⟨rfl, rfl⟩
  · obtain rfl := Except.ok.inj h
    exact ⟨rfl, rfl⟩

omit [Unicode] in
/-- After the semantic step an identity is evaluated because its executions were, or
because of a bound row. -/
theorem applySemantics_evaluated {spec : Json} {executions : List Json} {rows : List SemanticRow}
    {verified : Bool} {item out : IdentityItem}
    (h : applySemantics spec executions rows verified item = .ok out)
    (hev : out.state = .evaluated) :
    item.state ≠ .skipped ∧ ∃ expectations,
      expectationsFor spec item.identityId = .ok expectations ∧
      if isProtectedBy spec (configuredOf expectations) then
        ∃ row execution, (rows.filter fun r => item.identityId == .str r.identityId) = [row] ∧
          executionsFor executions item.identityId = .ok [execution] ∧
          BoundBy spec (configuredOf expectations) execution item.expectedDecision row
      else item.state = .evaluated := by
  unfold applySemantics at h
  obtain ⟨expectations, hexp, h⟩ := bind_eq_ok h
  dsimp only at h
  cases hprot : isProtectedBy spec (configuredOf expectations) with
  | false =>
    have hstate : item.state = .evaluated := by
      split at h
      · rw [hprot, Bool.false_and, if_neg (by simp)] at h
        obtain rfl := Except.ok.inj h
        exact hev
      · split at h
        · obtain ⟨-, -, -, execution, -, hvalid⟩ := applyRow_evaluated h hev
          rw [hprot] at hvalid
          exact sourceValid_unprotected hprot hvalid
        · obtain rfl := Except.ok.inj h
          simp [IdentityItem.update] at hev
      · obtain rfl := Except.ok.inj h
        simp [IdentityItem.update] at hev
    exact ⟨by simp [hstate], expectations, hexp, by simpa [hprot] using hstate⟩
  | true =>
    split at h
    · rw [hprot, Bool.true_and] at h
      split at h
      · obtain rfl := Except.ok.inj h
        simp [IdentityItem.update] at hev
      · rename_i hs
        obtain rfl := Except.ok.inj h
        simp [hev] at hs
    · rename_i row hrow
      split at h
      swap
      · obtain rfl := Except.ok.inj h
        simp [IdentityItem.update] at hev
      rename_i hconsistent
      obtain ⟨hs, hdecided, hbase, execution, hexec, hvalid⟩ := applyRow_evaluated h hev
      rw [hprot] at hvalid
      refine ⟨hs, expectations, hexp, ?_⟩
      rw [hprot, if_pos rfl]
      refine ⟨row, execution, hrow, hexec, ?_⟩
      exact {
        consistent := by simpa using hconsistent
        decided := hdecided
        baseline := fun hallow => by
          have := hbase hallow
          unfold decisionText at this
          split at this
          · rename_i hd
            simpa using hd
          · simp at this
        bound := sourceValid_protected hvalid }
    · obtain rfl := Except.ok.inj h
      simp [IdentityItem.update] at hev

omit [Unicode] in
/-- The credential step only ever takes the mark away. -/
theorem credentialItem_eq_ok {spec : Json} {identities : List Json}
    {reported : List (String × Json)} {session : Session} {verified : Bool}
    {item out : IdentityItem}
    (h : credentialItem spec identities reported session verified item = .ok out) :
    out.identityId = item.identityId ∧ out.expectedDecision = item.expectedDecision ∧
      (out.state = .evaluated → item.state = .evaluated) := by
  unfold credentialItem at h
  obtain ⟨declared, -, h⟩ := bind_eq_ok h
  obtain ⟨credential, -, h⟩ := bind_eq_ok h
  obtain ⟨sends, -, h⟩ := bind_eq_ok h
  obtain ⟨verification, -, h⟩ := bind_eq_ok h
  dsimp only at h
  split at h
  · obtain rfl := Except.ok.inj h
    exact ⟨rfl, rfl, fun hev => by simp [IdentityItem.update] at hev⟩
  · obtain rfl := Except.ok.inj h
    exact ⟨rfl, rfl, id⟩

omit [Unicode] in
/-- The last steps take the mark away from everything that is not verified, not in an
established session, or without a baseline. -/
theorem finalSteps_evaluated {session : Session} {verified baseline : Bool} {item : IdentityItem}
    (h : (baselineStep baseline (sessionStep session (unverifiedStep verified item))).state =
      .evaluated) :
    item.state = .evaluated ∧ verified = true ∧ baseline = true ∧
      (session.status = .passed ∨ session.status = .notConfigured) := by
  have h1 : baseline = true ∧
      (sessionStep session (unverifiedStep verified item)).state = .evaluated := by
    unfold baselineStep at h
    split at h
    · simp [IdentityItem.update] at h
    · rename_i hb
      exact ⟨by simpa [h] using hb, h⟩
  have h2 : (session.status = .passed ∨ session.status = .notConfigured) ∧
      (unverifiedStep verified item).state = .evaluated := by
    have h' := h1.2
    unfold sessionStep at h'
    split at h'
    · simp [IdentityItem.update] at h'
    · rename_i hs
      refine ⟨?_, h'⟩
      by_contra hno
      simp only [not_or] at hno
      simp [hno.1, hno.2, h'] at hs
  have h3 : verified = true ∧ item.state = .evaluated := by
    have h' := h2.2
    unfold unverifiedStep at h'
    split at h'
    · simp [IdentityItem.update] at h'
    · rename_i hv
      exact ⟨by simpa [h'] using hv, h'⟩
  exact ⟨h3.2, h3.1, h1.1, h2.1⟩

omit [Unicode] in
theorem finalSteps_keeps (session : Session) (verified baseline : Bool) (item : IdentityItem) :
    (baselineStep baseline (sessionStep session (unverifiedStep verified item))).identityId =
        item.identityId ∧
      (baselineStep baseline (sessionStep session (unverifiedStep verified item))).expectedDecision =
        item.expectedDecision := by
  unfold baselineStep sessionStep unverifiedStep
  split <;> split <;> split <;> exact ⟨rfl, rfl⟩

/-! ## The run -/

/-- What an accepted assessment was computed from. -/
structure Assessed (spec : Json) (executions : List Json) (verified : Bool)
    (preflight semantic : List Json) (result : Assessment) (expected : List (Json × Json))
    (reported : List (String × Json)) (identities : List Json) (rows : List SemanticRow)
    (items : List IdentityItem) : Prop where
  session : assessPreflight spec preflight verified = .ok result.preflight
  reported_ok : reportKeys executions = .ok reported
  expected_ok : expectedDecisions spec = .ok expected
  identities_ok : (spec.getD "identities" (.arr []) >>= Json.iter) = .ok identities
  rows_ok : semantic.mapM safeSemanticRow = .ok rows
  items_ok : ∃ base told, List.Forall₂
      (fun i b => assessIdentity spec expected reported i = .ok b) identities base ∧
    List.Forall₂ (fun b t => applySemantics spec executions rows verified b = .ok t) base told ∧
    List.Forall₂ (fun t c => credentialItem spec identities reported result.preflight verified t =
      .ok c) told items
  baseline : result.baselineValid = hasBaseline verified
    (items.map fun i => sessionStep result.preflight (unverifiedStep verified i))
  identities_eq : result.identities = items.map fun i => baselineStep result.baselineValid
    (sessionStep result.preflight (unverifiedStep verified i))
  unexpected_eq : result.unexpected = (reported.filter fun p =>
    !result.identities.any fun i => i.identityId == .str p.1).length
  status_eq : result.status = runStatus result.identities result.unexpected
  reasons_eq : result.reasons =
    runReasons spec verified result.baselineValid result.identities result.unexpected
  counts_eq : result.evaluated = stateCount result.identities .evaluated ∧
    result.inconclusive = stateCount result.identities .inconclusive ∧
    result.missing = stateCount result.identities .missing ∧
    result.skipped = stateCount result.identities .skipped

theorem assess_eq_ok {spec : Json} {executions preflight semantic : List Json}
    {candidates : ℕ} {verified : Bool} {result : Assessment}
    (h : assess spec executions candidates verified preflight semantic = .ok result) :
    ∃ expected reported identities rows items, Assessed (spec.orElse (.obj [])) executions verified
      preflight semantic result expected reported identities rows items := by
  unfold assess at h
  obtain ⟨session, hsession, h⟩ := bind_eq_ok h
  obtain ⟨reported, hreported, h⟩ := bind_eq_ok h
  obtain ⟨final, hfinal, h⟩ := bind_eq_ok h
  obtain ⟨hash, -, h⟩ := bind_eq_ok h
  obtain rfl := Except.ok.inj h
  unfold assessItems at hfinal
  obtain ⟨expected, hexpected, hfinal⟩ := bind_eq_ok hfinal
  obtain ⟨list, hlist, hfinal⟩ := bind_eq_ok hfinal
  obtain ⟨identities, hidentities, hfinal⟩ := bind_eq_ok hfinal
  obtain ⟨base, hbase, hfinal⟩ := bind_eq_ok hfinal
  obtain ⟨rows, hrows, hfinal⟩ := bind_eq_ok hfinal
  obtain ⟨told, htold, hfinal⟩ := bind_eq_ok hfinal
  obtain ⟨items, hitems, hfinal⟩ := bind_eq_ok hfinal
  obtain rfl := Except.ok.inj hfinal
  exact ⟨expected, reported, identities, rows, items, {
    session := hsession
    reported_ok := hreported
    expected_ok := hexpected
    identities_ok := by rw [hlist]; exact hidentities
    rows_ok := hrows
    items_ok := ⟨base, told, mapM_eq_ok hbase, mapM_eq_ok htold, mapM_eq_ok hitems⟩
    baseline := rfl
    identities_eq := List.map_map
    unexpected_eq := rfl
    status_eq := rfl
    reasons_eq := rfl
    counts_eq := ⟨rfl, rfl, rfl, rfl⟩ }⟩

/-- An evaluated identity passed every gate. -/
theorem Assessed.sound {spec : Json} {executions preflight semantic : List Json} {verified : Bool}
    {result : Assessment} {expected : List (Json × Json)} {reported : List (String × Json)}
    {identities : List Json} {rows : List SemanticRow} {items : List IdentityItem}
    (h : Assessed spec executions verified preflight semantic result expected reported identities
      rows items) {item : IdentityItem} (hmem : item ∈ result.identities)
    (hev : item.state = .evaluated) :
    SoundlyEvaluated spec executions verified result.preflight expected reported rows item := by
  rw [h.identities_eq] at hmem
  obtain ⟨checked, hchecked, rfl⟩ := List.mem_map.mp hmem
  obtain ⟨hstate, hverified, -, hsession⟩ := finalSteps_evaluated hev
  obtain ⟨hid, hexp⟩ := finalSteps_keeps result.preflight verified result.baselineValid checked
  obtain ⟨base, told, hb, ht, hc⟩ := h.items_ok
  obtain ⟨t, htmem, hcred⟩ := exists_of_mem_forall₂ hc hchecked
  obtain ⟨hid', hexp', hstate'⟩ := credentialItem_eq_ok hcred
  obtain ⟨b, hbmem, hsem⟩ := exists_of_mem_forall₂ ht htmem
  obtain ⟨hid'', hexp''⟩ := applySemantics_keeps hsem
  obtain ⟨hnot, expectations, hexpectations, hevidence⟩ :=
    applySemantics_evaluated hsem (hstate' hstate)
  obtain ⟨i, -, hbase⟩ := exists_of_mem_forall₂ hb hbmem
  obtain ⟨-, hdecision, hreviewed, hexecuted⟩ := assessIdentity_eq_ok hbase
  have hi : (baselineStep result.baselineValid (sessionStep result.preflight
      (unverifiedStep verified checked))).identityId = b.identityId :=
    hid.trans (hid'.trans hid'')
  have he : (baselineStep result.baselineValid (sessionStep result.preflight
      (unverifiedStep verified checked))).expectedDecision = b.expectedDecision :=
    hexp.trans (hexp'.trans hexp'')
  refine ⟨hverified, hsession, ?_, ?_⟩
  · rw [hi, he]
    obtain ⟨hskip, hunknown⟩ := hreviewed hnot
    unfold soleDecision at hdecision
    split at hdecision
    · rename_i d hd
      exact ⟨d, hd, hdecision.symm, hdecision ▸ hskip, hdecision ▸ hunknown⟩
    · exact absurd hdecision hunknown
  · rw [hi, he]
    refine ⟨expectations, hexpectations, ?_⟩
    split at hevidence
    · rename_i hp
      rw [if_pos hp]
      exact hevidence
    · rename_i hp
      rw [if_neg hp]
      exact hexecuted hevidence

omit [Unicode] in
/-- Every item has one of the four states. -/
theorem stateCount_partition (items : List IdentityItem) :
    stateCount items .evaluated + stateCount items .inconclusive + stateCount items .missing +
      stateCount items .skipped = items.length := by
  unfold stateCount
  induction items with
  | nil => rfl
  | cons i is ih =>
    simp only [List.countP_cons, List.length_cons]
    cases i.state <;> simp <;> omega

omit [Unicode] in
theorem stateCount_eq_length {items : List IdentityItem} :
    stateCount items .evaluated = items.length ↔ ∀ i ∈ items, i.state = .evaluated := by
  unfold stateCount
  rw [List.countP_eq_length]
  simp

omit [Unicode] in
/-- The run is conclusive exactly when every declared identity is evaluated and no
execution is unexpected. -/
theorem runStatus_conclusive_iff {items : List IdentityItem} {unexpected : ℕ} :
    runStatus items unexpected = .conclusive ↔
      items ≠ [] ∧ (∀ i ∈ items, i.state = .evaluated) ∧ unexpected = 0 := by
  unfold runStatus
  rw [← stateCount_eq_length]
  split
  · rename_i h
    simpa [and_assoc] using h
  · rename_i h
    have : ¬ (items ≠ [] ∧ stateCount items .evaluated = items.length ∧ unexpected = 0) := by
      simpa [and_assoc] using h
    split <;> simpa using this

omit [Unicode] in
theorem runReasons_eq_nil_iff {spec : Json} {verified baseline : Bool}
    {items : List IdentityItem} {unexpected : ℕ} :
    runReasons spec verified baseline items unexpected = [] ↔
      (∀ i ∈ items, i.state = .evaluated) ∧ baseline = true ∧ unexpected = 0 ∧
        spec.truthy = true ∧ verified = true := by
  unfold runReasons
  rw [sortedSet_eq_nil]
  simp only [List.append_eq_nil_iff, List.map_eq_nil_iff, List.filter_eq_nil_iff, bne_iff_ne,
    ne_eq, not_not, and_assoc, beq_iff_eq]
  refine and_congr_right fun _ => ?_
  cases baseline <;> cases verified <;> cases spec.truthy <;> by_cases hu : unexpected = 0 <;>
    simp [hu]

namespace Assessed

variable {spec : Json} {executions preflight semantic : List Json} {verified : Bool}
  {result : Assessment} {expected : List (Json × Json)} {reported : List (String × Json)}
  {identities : List Json} {rows : List SemanticRow} {items : List IdentityItem}

/-- The items are the declared identities, in order. -/
theorem declared (h : Assessed spec executions verified preflight semantic result expected reported
    identities rows items) :
    List.Forall₂ (fun i item => i.item "id" = .ok item.identityId) identities result.identities := by
  obtain ⟨base, told, hb, ht, hc⟩ := h.items_ok
  rw [h.identities_eq, List.forall₂_map_right_iff]
  have htold : List.Forall₂ (fun i t => i.item "id" = .ok t.identityId) identities told := by
    refine forall₂_comp hb ht fun i b t hbase hsem => ?_
    rw [(applySemantics_keeps hsem).1]
    exact (assessIdentity_eq_ok hbase).1
  refine forall₂_comp htold hc fun i t c hid hcred => ?_
  rw [(finalSteps_keeps _ _ _ _).1, (credentialItem_eq_ok hcred).1]
  exact hid

/-- A valid baseline is one of the evaluated items. -/
theorem baseline_item (h : Assessed spec executions verified preflight semantic result expected
    reported identities rows items) (hb : result.baselineValid = true) :
    ∃ item ∈ result.identities, item.expectedDecision = .str "allow" ∧ item.state = .evaluated := by
  have hany := h.baseline
  rw [hb] at hany
  simp only [hasBaseline, eq_comm (a := true), Bool.and_eq_true, List.any_eq_true,
    List.mem_map] at hany
  obtain ⟨-, -, ⟨c, hc, rfl⟩, hbase⟩ := hany
  refine ⟨_, h.identities_eq ▸ List.mem_map_of_mem hc, ?_⟩
  simpa [baselineStep, hb, isBaseline] using hbase

/-- A conclusive run evaluated a declared identity, so the snapshot is verified, there is a
legitimate baseline, and the case is not empty. -/
theorem conclusive (h : Assessed spec executions verified preflight semantic result expected
    reported identities rows items) (hc : result.status = .conclusive) :
    result.baselineValid = true ∧ verified = true ∧ (spec ≠ .obj []) := by
  rw [h.status_eq, runStatus_conclusive_iff] at hc
  obtain ⟨hne, hall, -⟩ := hc
  obtain ⟨item, hitem⟩ := List.exists_mem_of_ne_nil _ hne
  have hev := hall item hitem
  have hmem := hitem
  rw [h.identities_eq] at hmem
  obtain ⟨checked, -, rfl⟩ := List.mem_map.mp hmem
  obtain ⟨-, hverified, hbaseline, -⟩ := finalSteps_evaluated hev
  refine ⟨hbaseline, hverified, ?_⟩
  rintro rfl
  have hids : [] = identities := Except.ok.inj h.identities_ok
  have hnone := h.declared
  rw [← hids] at hnone
  exact hne (List.forall₂_nil_left_iff.mp hnone)

/-- The executions of a run without unexpected reports belong to declared identities. -/
theorem execution_declared (h : Assessed spec executions verified preflight semantic result expected
    reported identities rows items) (hu : result.unexpected = 0) {execution : Json}
    (he : execution ∈ executions) :
    ∃ key, reportKey execution = .ok key ∧
      ∃ item ∈ result.identities, item.identityId = .str key := by
  obtain ⟨p, hp, hkey⟩ := exists_of_mem_forall₂' (mapM_eq_ok h.reported_ok) he
  obtain ⟨key, hk, hpair⟩ := bind_eq_ok hkey
  obtain rfl := Except.ok.inj hpair
  refine ⟨key, hk, ?_⟩
  rw [h.unexpected_eq, List.length_eq_zero_iff, List.filter_eq_nil_iff] at hu
  have hany := hu _ hp
  simpa [List.any_eq_true] using hany

end Assessed

/-! ## Soundness -/

/-- The decisions of a reviewed case are the three that its validation admits. -/
def ReviewedDecisions (spec : Json) : Prop :=
  ∀ expected, expectedDecisions spec = .ok expected →
    ∀ p ∈ expected, p.2 = .str "allow" ∨ p.2 = .str "deny" ∨ p.2 = .str "skip"

/-- What the result of an assessment says about the case and the reports it was computed
from. -/
structure AssessmentSound (spec : Json) (executions : List Json) (verified : Bool)
    (semantic : List Json) (result : Assessment) : Prop where
  /-- An evaluated identity passed every gate. -/
  evaluated_sound : ∃ expected reported rows, expectedDecisions spec = .ok expected ∧
    reportKeys executions = .ok reported ∧ semantic.mapM safeSemanticRow = .ok rows ∧
    ∀ item ∈ result.identities, item.state = .evaluated →
      SoundlyEvaluated spec executions verified result.preflight expected reported rows item ∧
        (item.expectedDecision = .str "allow" ∨ item.expectedDecision = .str "deny")
  /-- Conclusive is the status without a reason against it. -/
  conclusive_iff : result.status = .conclusive ↔ result.reasons = []
  /-- A conclusive run leaves no identity open and no execution unexplained. -/
  conclusive_complete : result.status = .conclusive →
    (∀ item ∈ result.identities, item.state = .evaluated) ∧
    (∃ item ∈ result.identities, item.expectedDecision = .str "allow" ∧ item.state = .evaluated) ∧
    ∀ execution ∈ executions, ∃ key, reportKey execution = .ok key ∧
      ∃ item ∈ result.identities, item.identityId = .str key
  /-- The counts are those of the declared identities. -/
  partition : ∃ identities, (spec.getD "identities" (.arr []) >>= Json.iter) = .ok identities ∧
    List.Forall₂ (fun i item => i.item "id" = .ok item.identityId) identities result.identities ∧
    result.evaluated + result.inconclusive + result.missing + result.skipped = identities.length ∧
    result.evaluated = stateCount result.identities .evaluated ∧
    result.inconclusive = stateCount result.identities .inconclusive ∧
    result.missing = stateCount result.identities .missing ∧
    result.skipped = stateCount result.identities .skipped

omit [Unicode] in
/-- An expectation that is neither skipped nor unknown allows or denies. -/
theorem ReviewedDecisions.allow_or_deny {spec : Json} {expected : List (Json × Json)}
    {identity d : Json} (hspec : ReviewedDecisions spec)
    (hexpected : expectedDecisions spec = .ok expected) (hd : decisionsFor expected identity = [d])
    (hskip : d ≠ .str "skip") : d = .str "allow" ∨ d = .str "deny" := by
  have hmem : d ∈ decisionsFor expected identity := by simp [hd]
  obtain ⟨p, hp, rfl⟩ := List.mem_map.mp hmem
  rcases hspec expected hexpected p (List.mem_of_mem_filter hp) with h | h | h
  · exact .inl h
  · exact .inr h
  · exact absurd h hskip

/-- Every assessment of a reviewed case is sound, whatever the reports are. -/
theorem assess_sound {spec : Json} {executions preflight semantic : List Json} {candidates : ℕ}
    {verified : Bool} {result : Assessment} (hspec : ReviewedDecisions (spec.orElse (.obj [])))
    (h : assess spec executions candidates verified preflight semantic = .ok result) :
    AssessmentSound (spec.orElse (.obj [])) executions verified semantic result := by
  obtain ⟨expected, reported, identities, rows, items, ha⟩ := assess_eq_ok h
  have hconclusive : result.status = .conclusive ↔ result.reasons = [] := by
    rw [ha.reasons_eq, runReasons_eq_nil_iff]
    constructor
    · intro hc
      obtain ⟨hbaseline, hverified, hne⟩ := ha.conclusive hc
      rw [ha.status_eq, runStatus_conclusive_iff] at hc
      refine ⟨hc.2.1, hbaseline, hc.2.2, ?_, hverified⟩
      unfold Json.orElse at hne ⊢
      split at hne
      · rename_i ht
        rw [if_pos ht]
        exact ht
      · exact absurd rfl hne
    · rintro ⟨hall, hbaseline, hu, -, -⟩
      obtain ⟨item, hitem, -⟩ := ha.baseline_item hbaseline
      rw [ha.status_eq, runStatus_conclusive_iff]
      exact ⟨List.ne_nil_of_mem hitem, hall, hu⟩
  refine ⟨⟨expected, reported, rows, ha.expected_ok, ha.reported_ok, ha.rows_ok, ?_⟩,
    hconclusive, ?_, ?_⟩
  · intro item hitem hev
    have hsound := ha.sound hitem hev
    obtain ⟨d, hd, rfl, hskip, -⟩ := hsound.one_expectation
    exact ⟨hsound, hspec.allow_or_deny ha.expected_ok hd hskip⟩
  · intro hc
    obtain ⟨hbaseline, -, -⟩ := ha.conclusive hc
    rw [ha.status_eq, runStatus_conclusive_iff] at hc
    exact ⟨hc.2.1, ha.baseline_item hbaseline, fun e he => ha.execution_declared hc.2.2 he⟩
  · refine ⟨identities, ha.identities_ok, ha.declared, ?_, ha.counts_eq⟩
    obtain ⟨he, hi, hm, hs⟩ := ha.counts_eq
    rw [he, hi, hm, hs, stateCount_partition]
    exact ha.declared.length_eq.symm

/-! A case with response assertions for one of its two identities. -/

def exampleIdentity (id env : String) : Json := .obj [("id", .str id),
  ("credential", .obj [("type", .str "bearer"), ("value_env", .str env)])]

def exampleCase : Json := .obj [("id", .str "orders"),
  ("identities", .arr [exampleIdentity "admin" "ADMIN", exampleIdentity "peer" "PEER"]),
  ("request", .obj [("method", .str "GET"), ("url", .str "https://api.example.com/orders/1")]),
  ("expected_access", .arr [
    .obj [("identity_id", .str "admin"), ("decision", .str "allow")],
    .obj [("identity_id", .str "peer"), ("decision", .str "deny"),
      ("response_assertions", .arr [.obj [("decision", .str "deny")]])]])]

def exampleExecution (id : String) : Json := .obj [("identity_id", .str id),
  ("observed_outcome", .str "allow"), ("status_code", .int 200)]

def exampleSemanticRow : Json := .obj [("identity_id", .str "peer"),
  ("expected_access", .str "deny"), ("decision", .str "denied"),
  ("source", .str "response_assertion"), ("reason", .str "assertion_matched"),
  ("matched_assertions", .arr [.int 0])]

def exampleAssessment : Except Exn Assessment :=
  assess exampleCase [exampleExecution "admin", exampleExecution "peer"] 0 true []
    [exampleSemanticRow]

omit [Unicode] in
theorem exampleCase_reviewed : ReviewedDecisions (exampleCase.orElse (.obj [])) := by
  intro expected h p hp
  obtain rfl : [(.str "admin", .str "allow"), (.str "peer", .str "deny")] = expected :=
    Except.ok.inj h
  simp only [List.mem_cons, List.not_mem_nil, or_false] at hp
  rcases hp with rfl | rfl <;> simp

/-- The admin of the example is evaluated from the status code of its execution. -/
def statusOnlyAdmin (result : Assessment) : Bool :=
  result.status == .conclusive && result.identities.any fun i =>
    i.identityId == .str "admin" && i.state == .evaluated

omit [Unicode] in
theorem exampleAssessment_eq_ok :
    ∃ result, @exampleAssessment Unicode.ascii = .ok result ∧ statusOnlyAdmin result = true := by
  have h : (@exampleAssessment Unicode.ascii).toOption.any statusOnlyAdmin = true := by
    decide +kernel
  cases hr : @exampleAssessment Unicode.ascii with
  | error e => simp [hr, Except.toOption] at h
  | ok result => exact ⟨result, rfl, by simpa [hr, Except.toOption] using h⟩

omit [Unicode] in
theorem assess_sound_example :
    ∃ result, @exampleAssessment Unicode.ascii = .ok result ∧ result.status = .conclusive ∧
      @AssessmentSound Unicode.ascii exampleCase
        [exampleExecution "admin", exampleExecution "peer"] true [exampleSemanticRow] result := by
  obtain ⟨result, h, hstatus⟩ := exampleAssessment_eq_ok
  simp only [statusOnlyAdmin, Bool.and_eq_true, beq_iff_eq] at hstatus
  exact ⟨result, h, hstatus.1, @assess_sound Unicode.ascii _ _ _ _ _ _ _ exampleCase_reviewed h⟩

/-! ## A status code in a case with assertions -/

/-- Some expectation of the case has response assertions, or the case a write oracle. -/
def CaseProtected (spec : Json) : Prop :=
  ∃ expectations, (spec.getD "expected_access" (.arr []) >>= Json.iter) = .ok expectations ∧
    ((∃ r ∈ expectations, (r.field "response_assertions").truthy = true) ∨
      (spec.field "write_verification").truthy = true)

/-- In a protected case every evaluated identity has exactly one semantic row. -/
def NeverStatusAlone : Prop :=
  ∀ (spec : Json) (executions preflight semantic : List Json) (candidates : ℕ) (verified : Bool)
    (result : Assessment), ReviewedDecisions spec → CaseProtected spec →
    assess spec executions candidates verified preflight semantic = .ok result →
    ∀ item ∈ result.identities, item.state = .evaluated →
      ∃ rows row, semantic.mapM safeSemanticRow = .ok rows ∧
        (rows.filter fun r => item.identityId == .str r.identityId) = [row]

omit [Unicode] in
/-- Assertions protect the identity they are written for. The admin of the example has none,
and is evaluated without a row about it. -/
theorem not_neverStatusAlone : ¬ @NeverStatusAlone Unicode.ascii := by
  intro hclaim
  obtain ⟨result, h, hstatus⟩ := exampleAssessment_eq_ok
  simp only [statusOnlyAdmin, Bool.and_eq_true, beq_iff_eq, List.any_eq_true] at hstatus
  obtain ⟨-, item, hitem, hid, hev⟩ := hstatus
  have hprotected : CaseProtected exampleCase :=
    ⟨_, rfl, .inl ⟨_, List.mem_cons_of_mem _ List.mem_cons_self, by decide⟩⟩
  obtain ⟨rows, row, hrows, hrow⟩ :=
    hclaim _ _ _ _ _ _ _ exampleCase_reviewed hprotected h item hitem hev
  have hsafe : ∃ r, r.identityId = "peer" ∧ [r] = rows := ⟨_, rfl, Except.ok.inj hrows⟩
  obtain ⟨r, hr, rfl⟩ := hsafe
  simp [hid, hr] at hrow

end VardrMap
