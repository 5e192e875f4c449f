import VardrMap.Assessments.Soundness
import VardrMap.Lib.Coupled

/-!
# The assessment and the order of a report

A gate reports executions, preflight rows and semantic rows as lists. An identity is decided by
the rows that are reported under it, and only when there is exactly one of them; so the order of
the lists is lost, except that a semantic row may point at an execution by its number.
-/
namespace VardrMap
open Lib

/-! ## One row or several -/

/-- A reordered list is the same list, unless it has two elements at least. -/
theorem perm_cases {α : Type} {l l' : List α} (h : l.Perm l') :
    l = l' ∨ ∃ a b m a' b' m', l = a :: b :: m ∧ l' = a' :: b' :: m' := by
  match l, l' with
  | [], l' => exact .inl h.nil_eq
  | [a], l' => exact .inl h.singleton_eq
  | a :: b :: m, [] => exact .inl h.eq_nil
  | a :: b :: m, [a'] => exact .inl h.eq_singleton
  | a :: b :: m, a' :: b' :: m' => exact .inr ⟨a, b, m, a', b', m', rfl, rfl⟩

theorem filterE_perm {ε α : Type} {p : α → Except ε Bool} {l l' : List α} (h : l.Perm l') :
    Coupled List.Perm (l.filterE p) (l'.filterE p) := by
  induction h with
  | nil => exact .ok (.refl _)
  | cons a _ ih =>
    refine Coupled.same (p a) fun keep => ?_
    refine ih.bind fun rest rest' hrest => ?_
    cases keep
    · exact .ok hrest
    · exact .ok (hrest.cons a)
  | swap a b l =>
    simp only [List.filterE, bind_assoc]
    refine Coupled.swap fun keep keep' => ?_
    simp only [pure_bind]
    cases l.filterE p with
    | error e => exact .error e e
    | ok rest =>
      cases keep
      · exact .ok (.refl _)
      · cases keep'
        · exact .ok (.refl _)
        · exact .ok (.swap _ _ _)
  | trans _ _ ih ih' => exact Coupled.trans (fun _ _ _ hab hbc => hab.trans hbc) ih ih'

theorem reportedUnder_perm {reported reported' : List (String × Json)}
    (h : reported.Perm reported') (identity : Json) :
    (reportedUnder reported identity).Perm (reportedUnder reported' identity) :=
  (h.filter _).map _

variable [Unicode]

theorem reportKeys_perm {rows rows' : List Json} (h : rows.Perm rows') :
    Coupled List.Perm (reportKeys rows) (reportKeys rows') :=
  Coupled.mapM_perm h

/-! ## Preflight -/

omit [Unicode] in
theorem preflightRows_perm (config : Json) {rows rows' : List Json} (h : rows.Perm rows') :
    preflightRows config rows = preflightRows config rows' := by
  rcases perm_cases h with rfl | ⟨a, b, m, a', b', m', rfl, rfl⟩
  · rfl
  · rfl

omit [Unicode] in
theorem preflightItem_perm {reported reported' : List (String × Json)}
    (h : reported.Perm reported') (verified : Bool) :
    preflightItem reported verified = preflightItem reported' verified := by
  funext declared
  unfold preflightItem
  rw [preflightRows_perm declared.2 (reportedUnder_perm h declared.1)]

/-- The session does not depend on the order of the preflight rows. -/
theorem assessPreflight_perm (spec : Json) {rows rows' : List Json} (h : rows.Perm rows')
    (verified : Bool) :
    Coupled Eq (assessPreflight spec rows verified) (assessPreflight spec rows' verified) := by
  unfold assessPreflight
  refine Coupled.same _ fun identitiesValue => Coupled.same _ fun identities => ?_
  refine Coupled.same _ fun own => Coupled.same _ fun declared => ?_
  refine (reportKeys_perm h).bind fun reported reported' hreported => ?_
  rw [preflightItem_perm hreported]
  refine Coupled.same _ fun items => ?_
  dsimp only
  rw [(hreported.filter _).length_eq]
  exact .ok rfl

/-! ## Identities -/

theorem soleOutcome_perm {rows rows' : List Json} (h : rows.Perm rows') :
    soleOutcome rows = soleOutcome rows' := by
  rcases perm_cases h with rfl | ⟨a, b, m, a', b', m', rfl, rfl⟩
  · rfl
  · rfl

theorem rowsState_perm (spec decision : Json) {rows rows' : List Json} (h : rows.Perm rows') :
    rowsState spec decision rows = rowsState spec decision rows' := by
  rcases perm_cases h with rfl | ⟨a, b, m, a', b', m', rfl, rfl⟩
  · rfl
  · rfl

omit [Unicode] in
theorem rejected401_perm {rows rows' : List Json} (h : rows.Perm rows') :
    rejected401 rows = rejected401 rows' := by
  rcases perm_cases h with rfl | ⟨a, b, m, a', b', m', rfl, rfl⟩
  · rfl
  · rfl

theorem assessIdentity_perm (spec : Json) (expected : List (Json × Json))
    {reported reported' : List (String × Json)} (h : reported.Perm reported') :
    assessIdentity spec expected reported = assessIdentity spec expected reported' := by
  funext identity
  unfold assessIdentity
  refine bind_congr fun id => bind_congr fun identityId => bind_congr fun decision => ?_
  have hrows := reportedUnder_perm h identityId
  dsimp only
  rw [rowsState_perm spec decision hrows, soleOutcome_perm hrows]

omit [Unicode] in
theorem credentialItem_perm (spec : Json) (identities : List Json)
    {reported reported' : List (String × Json)} (h : reported.Perm reported') (session : Session)
    (verified : Bool) : credentialItem spec identities reported session verified =
      credentialItem spec identities reported' session verified := by
  funext item
  unfold credentialItem
  simp only [rejected401_perm (reportedUnder_perm h item.identityId)]

/-! ## Semantic rows -/

/-- The row points at no execution. -/
def pointsNowhere (row : Json) : Prop := boundedInt? 0 99 (row.field "execution_index") = none

omit [Unicode] in
theorem executionIndex_eq_none {row : Json} {r : SemanticRow} (h : safeSemanticRow row = .ok r)
    (hrow : pointsNowhere row) : r.executionIndex = none := by
  unfold safeSemanticRow at h
  split at h
  · cases h
  · obtain rfl := Except.ok.inj h
    exact hrow

omit [Unicode] in
theorem applyRow_perm (spec configured : Json) (isProtected : Bool)
    {executions executions' : List Json} (h : executions.Perm executions') (verified : Bool)
    (item : IdentityItem) {row : SemanticRow} (hrow : row.executionIndex = none) :
    Coupled Eq (applyRow spec configured isProtected executions verified item row)
      (applyRow spec configured isProtected executions' verified item row) := by
  unfold applyRow
  split
  · exact .ok rfl
  split
  · exact .ok rfl
  split
  · exact .ok rfl
  refine (filterE_perm h).bind fun actual actual' hactual => ?_
  simp only [indexMatches, hrow]
  rcases perm_cases hactual with rfl | ⟨a, b, m, a', b', m', rfl, rfl⟩
  · exact .refl (fun _ => rfl) _
  · exact .ok rfl

omit [Unicode] in
theorem applySemantics_perm (spec : Json) {executions executions' : List Json}
    (h : executions.Perm executions') {rows rows' : List SemanticRow} (hrows : rows.Perm rows')
    (hindex : ∀ r ∈ rows, r.executionIndex = none) (verified : Bool) (item : IdentityItem) :
    Coupled Eq (applySemantics spec executions rows verified item)
      (applySemantics spec executions' rows' verified item) := by
  unfold applySemantics
  refine Coupled.same _ fun expectations => ?_
  have hfilter := hrows.filter fun r => item.identityId == .str r.identityId
  dsimp only
  rcases perm_cases hfilter with heq | ⟨a, b, m, a', b', m', heq, heq'⟩
  · rw [← heq]
    split
    · exact .refl (fun _ => rfl) _
    · rename_i row hrow
      have hmem : row ∈ rows :=
        List.mem_of_mem_filter (by rw [hrow]; exact List.mem_singleton_self row)
      split
      · exact applyRow_perm spec _ _ h verified _ (hindex row hmem)
      · exact .ok rfl
    · exact .ok rfl
  · rw [heq, heq']
    exact .ok rfl

omit [Unicode] in
theorem semanticRows_perm {semantic semantic' : List Json} (h : semantic.Perm semantic')
    (hindex : ∀ row ∈ semantic, pointsNowhere row) :
    Coupled (fun rows rows' => rows.Perm rows' ∧ ∀ r ∈ rows, r.executionIndex = none)
      (semantic.mapM safeSemanticRow) (semantic'.mapM safeSemanticRow) := by
  have hperm : Coupled List.Perm (semantic.mapM safeSemanticRow) (semantic'.mapM safeSemanticRow) :=
    Coupled.mapM_perm h
  rcases mapM_cases safeSemanticRow semantic with ⟨rows, hrows, hall⟩ | ⟨e, he, -⟩
  · obtain ⟨rows', hrows', hp⟩ := hperm.exists_ok hrows
    rw [hrows, hrows']
    refine .ok ⟨hp, fun r hr => ?_⟩
    obtain ⟨row, hrow, hsafe⟩ := (Matched.of_forall₂ hall).2 r hr
    exact executionIndex_eq_none hsafe (hindex row hrow)
  · rw [he] at hperm ⊢
    generalize semantic'.mapM safeSemanticRow = out at hperm ⊢
    cases hperm with
    | error _ e' => exact .error e e'

/-! ## The run -/

theorem assessItems_perm (spec : Json) {executions executions' semantic semantic' : List Json}
    (h : executions.Perm executions') (hsemantic : semantic.Perm semantic')
    (hindex : ∀ row ∈ semantic, pointsNowhere row) {reported reported' : List (String × Json)}
    (hreported : reported.Perm reported') (verified : Bool) (session : Session) :
    Coupled Eq (assessItems spec executions verified session reported semantic)
      (assessItems spec executions' verified session reported' semantic') := by
  unfold assessItems
  refine Coupled.same _ fun expected => Coupled.same _ fun value => ?_
  refine Coupled.same _ fun identities => ?_
  rw [assessIdentity_perm spec expected hreported,
    credentialItem_perm spec identities hreported session verified]
  refine Coupled.same _ fun items => ?_
  refine (semanticRows_perm hsemantic hindex).bind fun rows rows' ⟨hrows, hnone⟩ => ?_
  refine (Coupled.mapM_eq fun item _ =>
    applySemantics_perm spec h hrows hnone verified item).bind ?_
  rintro decided _ rfl
  exact Coupled.same _ fun checked => .ok rfl

/-- The assessment does not depend on the order of the report. -/
theorem assess_report_order (spec : Json) {executions executions' preflight preflight' semantic
    semantic' : List Json} (hexecutions : executions.Perm executions')
    (hpreflight : preflight.Perm preflight') (hsemantic : semantic.Perm semantic')
    (hindex : ∀ row ∈ semantic, pointsNowhere row) (candidates : ℕ) (verified : Bool)
    (result : Assessment) :
    assess spec executions candidates verified preflight semantic = .ok result ↔
      assess spec executions' candidates verified preflight' semantic' = .ok result := by
  refine Coupled.eq_ok_iff ?_ result
  unfold assess
  dsimp only
  refine (assessPreflight_perm _ hpreflight verified).bind ?_
  rintro session _ rfl
  refine (reportKeys_perm hexecutions).bind fun reported reported' hreported => ?_
  refine (assessItems_perm _ hexecutions hsemantic hindex hreported verified session).bind ?_
  rintro items _ rfl
  rw [(hreported.filter _).length_eq]
  exact Coupled.same _ fun hash => .ok rfl

omit [Unicode] in
theorem assess_report_order_swapped : ∃ result,
    @assess Unicode.ascii exampleCase [exampleExecution "peer", exampleExecution "admin"] 0 true []
      [exampleSemanticRow] = .ok result ∧ result.status = .conclusive := by
  obtain ⟨result, h, hstatus⟩ := exampleAssessment_eq_ok
  simp only [statusOnlyAdmin, Bool.and_eq_true, beq_iff_eq] at hstatus
  have hindex : ∀ row ∈ [exampleSemanticRow], pointsNowhere row := by
    rintro row (_ | ⟨_, hrow⟩)
    · rfl
    · cases hrow
  exact ⟨result, (@assess_report_order Unicode.ascii exampleCase _ _ _ _ _ _ (.swap _ _ _)
    (.refl []) (.refl _) hindex 0 true result).mp h, hstatus.1⟩

end VardrMap
