import VardrMap.Lib.Failures
import VardrMap.TestCases.Accepted

/-!
# Refused test cases

A document that `_validate_spec` does not return is refused with a status of 400, unless one of
its checks comes to a value that it cannot read. Which values these are is described exactly.
-/
namespace VardrMap.TestCases
open Lib

/-- The refusals of `_validate_spec`. -/
def Refused (r : Refusal) : Prop := ∃ detail, r = .http 400 detail

/-! ## Values that cannot be read -/

/-- `True`, or a number other than zero: neither empty nor something to iterate over. -/
def Uniterable : Json → Prop
  | .bool b => b = true
  | .int n => n ≠ 0
  | .float v _ => v ≠ 0
  | .nonfinite _ => True
  | _ => False

theorem clean_ensure (condition : Bool) (detail : String) :
    Clean Refused (ensure condition (badRequest detail)) := by
  unfold ensure
  split
  · exact .ok ()
  · exact .error ⟨detail, rfl⟩

/-- An exception of the language is not planned. -/
theorem failing_raise {α : Type} (x : Except Exn α) :
    Failing Refused (raise x) fun r => ∃ e, r = .raised e ∧ x = .error e := by
  cases x with
  | ok a => exact (Failing.ok a).congr fun r => by simp
  | error e =>
    refine ⟨fun r hr => .inr ⟨e, (Except.error.inj hr).symm, rfl⟩, fun r ⟨e', hr, he⟩ => ?_⟩
    rw [hr, ← Except.error.inj he]
    rfl

theorem Uniterable.truthy {value : Json} (h : Uniterable value) : value.truthy = true := by
  cases value with
  | bool b => exact h
  | int n => exact bne_iff_ne.mpr h
  | float v r => exact bne_iff_ne.mpr h
  | nonfinite r => rfl
  | _ => exact h.elim

theorem iter_eq_error_iff {value : Json} (h : value.truthy = true) (e : Exn) :
    value.iter = .error e ↔ e = .typeError ∧ Uniterable value := by
  have herror : (Except.error Exn.typeError : Except Exn (List Json)) = .error e ↔
      e = .typeError := ⟨fun he => (Except.error.inj he).symm, fun he => he ▸ rfl⟩
  cases value with
  | null => cases h
  | bool b => exact herror.trans (and_iff_left h).symm
  | int n => exact herror.trans (and_iff_left (bne_iff_ne.mp h)).symm
  | float v r => exact herror.trans (and_iff_left (bne_iff_ne.mp h)).symm
  | nonfinite r => exact herror.trans (and_iff_left trivial).symm
  | _ => simp [Json.iter, Uniterable]

theorem failing_eachOf (value : Json) :
    Failing Refused (eachOf value) fun r => r = .raised .typeError ∧ Uniterable value := by
  refine (failing_raise _).congr fun r => ?_
  cases h : value.truthy with
  | false =>
    have hnot : ¬ Uniterable value := fun hu => by simp [hu.truthy] at h
    simp [Json.orElse, h, Json.iter, hnot]
  | true =>
    simp only [Json.orElse, h, if_true, iter_eq_error_iff h]
    constructor
    · rintro ⟨e, rfl, rfl, hu⟩
      exact ⟨rfl, hu⟩
    · rintro ⟨rfl, hu⟩
      exact ⟨_, rfl, rfl, hu⟩

theorem failing_isOneOf (value : Json) (names : List String) :
    Failing Refused (raise (isOneOf value names)) fun r =>
      r = .raised .typeError ∧ value.hashable = false := by
  refine (failing_raise _).congr fun r => ?_
  cases h : value.hashable with
  | true => simp [isOneOf, Json.asKey, h, bind, Except.bind, pure, Except.pure]
  | false => simp [isOneOf, Json.asKey, h, bind, Except.bind, eq_comm]

/-- An exception that is caught. -/
def IsValueError (e : Exn) : Prop := e = .valueError

theorem clean_valueError {α : Type} : Clean IsValueError (.error .valueError : Except Exn α) :=
  .error rfl

/-! ## Checks that read every value -/

theorem clean_checkDenyCode (code : Json) (i : ℕ) : Clean Refused (checkDenyCode code i) :=
  (clean_ensure ..).bind fun _ _ => clean_ensure ..

theorem clean_rejectReference (text path : String) : Clean Refused (rejectReference text path) :=
  clean_ensure ..

mutual

theorem clean_rejectEnvironmentReferences (path : String) (j : Json) :
    Clean Refused (rejectEnvironmentReferences path j) := by
  cases j with
  | str s => exact clean_rejectReference s path
  | arr xs => exact clean_rejectReferenceList path 0 xs
  | obj fs => exact clean_rejectReferenceFields path fs
  | _ => exact .ok ()

theorem clean_rejectReferenceList (path : String) (i : ℕ) (xs : List Json) :
    Clean Refused (rejectReferenceList path i xs) := by
  cases xs with
  | nil => exact .ok ()
  | cons x xs =>
    exact (clean_rejectEnvironmentReferences _ x).bind fun _ _ =>
      clean_rejectReferenceList path (i + 1) xs

theorem clean_rejectReferenceFields (path : String) (fs : List (String × Json)) :
    Clean Refused (rejectReferenceFields path fs) := by
  cases fs with
  | nil => exact .ok ()
  | cons f fs =>
    exact (clean_rejectReference f.1 _).bind fun _ _ =>
      (clean_rejectEnvironmentReferences _ f.2).bind fun _ _ => clean_rejectReferenceFields path fs

end

variable [Unicode]

theorem clean_checkIdentities (i : ℕ) (identities : List Json) (seen : List Text) :
    Clean Refused (checkIdentities i identities seen) := by
  induction identities generalizing i seen with
  | nil => exact .ok seen
  | cons identity identities ih =>
    exact (clean_ensure ..).bind fun _ _ => (clean_ensure ..).bind fun _ _ => ih ..

theorem clean_checkRequest (spec : Json) : Clean Refused (checkRequest spec) :=
  (clean_ensure ..).bind fun _ _ => (clean_ensure ..).bind fun _ _ =>
    (clean_ensure ..).bind fun _ _ => clean_ensure ..

theorem clean_checkShape (spec : Json) : Clean Refused (checkShape spec) :=
  (clean_ensure ..).bind fun _ _ => (clean_ensure ..).bind fun _ _ =>
    (clean_ensure ..).bind fun _ _ => (clean_ensure ..).bind fun _ _ =>
      (clean_checkIdentities ..).bind fun seen _ =>
        (clean_checkRequest spec).bind fun _ _ => .ok seen

theorem clean_checkResource (spec : Json) (seen : List Text) :
    Clean Refused (checkResource spec seen) := by
  refine (clean_ensure ..).bind fun _ _ => ?_
  split
  · exact (clean_ensure ..).bind fun _ _ => (clean_ensure ..).bind fun _ _ => clean_ensure ..
  · exact .ok ()

theorem clean_checkSteps (spec : Json) (seen : List Text) (i : ℕ) (steps : List Json)
    (names : List String) : Clean Refused (checkSteps spec seen i steps names) := by
  induction steps generalizing i names with
  | nil => exact .ok ()
  | cons step steps ih =>
    exact (clean_ensure ..).bind fun _ _ => (clean_ensure ..).bind fun _ _ =>
      (clean_ensure ..).bind fun _ _ => (clean_ensure ..).bind fun _ _ =>
        (clean_ensure ..).bind fun _ _ => (clean_ensure ..).bind fun _ _ => ih ..

/-! ## Checks that look a value up -/

/-- An entry of `expected_access` comes to its decision, and this is a list or an object. -/
def UnhashableDecision (seen : List Text) (expected : Json) : Prop :=
  expected.isObj = true ∧
    seen.contains ((expected.field "identity_id").toStrOr "").toList = true ∧
    (expected.field "decision").hashable = false

theorem failing_checkExpected (seen : List Text) (expected : Json) (i : ℕ) :
    Failing Refused (checkExpected seen expected i) fun r =>
      r = .raised .typeError ∧ UnhashableDecision seen expected := by
  refine ((clean_ensure ..).seq fun _ => (clean_ensure ..).seq fun _ =>
    (failing_isOneOf ..).bind fun _ _ => clean_ensure ..).congr fun r => ?_
  simp [UnhashableDecision, ensure_eq_ok_iff]
  tauto

/-- An identity comes to the type of its credential, and this is a list or an object. -/
def UnhashableType (identity : Json) : Prop :=
  identity.isObj = true ∧ (identity.field "credential").isObj = true ∧
    ((identity.field "credential").field "type").hashable = false

theorem failing_rejectLiteralCredential (identity : Json) (i : ℕ) :
    Failing Refused (rejectLiteralCredential identity i) fun r =>
      r = .raised .typeError ∧ UnhashableType identity := by
  refine ((clean_ensure ..).seq fun _ => (clean_ensure ..).seq fun _ =>
    (failing_isOneOf ..).bind fun _ _ => (clean_ensure ..).bind fun _ _ =>
      (clean_ensure ..).bind fun _ _ => (clean_ensure ..).bind fun _ _ =>
        (clean_ensure ..).bind fun _ _ => clean_ensure ..).congr fun r => ?_
  simp [UnhashableType, ensure_eq_ok_iff]
  tauto

/-! ## Preflights -/

theorem clean_urlsplit (url : Text) : Clean IsValueError (Url.urlsplit url) := by
  unfold Url.urlsplit
  dsimp only
  split
  · split
    · exact clean_valueError
    split
    · exact clean_valueError
    split
    · exact clean_valueError
    · exact .ok _
  · exact .ok _

theorem clean_port (u : SplitUrl) : Clean IsValueError u.port := by
  unfold SplitUrl.port
  dsimp only
  split
  · exact .ok _
  split
  · exact clean_valueError
  split
  · split
    · exact .ok _
    · exact clean_valueError
  · exact clean_valueError

theorem clean_originOf (u : SplitUrl) : Clean IsValueError (originOf u) := by
  unfold originOf
  split
  · exact clean_valueError
  split
  · exact clean_valueError
  refine (clean_port u).bind fun port _ => ?_
  split
  · exact clean_valueError
  · exact .ok _

theorem clean_preflightOrigin (raw : Json) : Clean IsValueError (preflightOrigin raw) := by
  cases raw with
  | str url =>
    simp only [preflightOrigin]
    split
    · exact clean_valueError
    · exact (clean_urlsplit _).bind fun u _ => clean_originOf u
  | _ => exact clean_valueError

theorem clean_preflightUrl {spec : Json} (h : Requested spec) (url : Json) :
    Clean IsValueError (preflightUrl spec url) := by
  unfold preflightUrl
  dsimp only
  split
  · exact clean_valueError
  refine (clean_preflightOrigin url).bind fun origin _ => ?_
  refine .ok_bind (item_eq_field h.request) (.ok_bind (item_eq_field h.url) ?_)
  refine (clean_preflightOrigin _).bind fun other _ => ?_
  split
  · exact .ok _
  · exact clean_valueError

omit [Unicode] in
theorem clean_refuseValueError {α : Type} {x : Except Exn α} (h : Clean IsValueError x)
    (detail : String) : Clean Refused (refuseValueError (badRequest detail) x) := by
  cases x with
  | ok a => exact .ok a
  | error e =>
    obtain rfl : e = .valueError := (h.sound e rfl).resolve_right id
    exact .error ⟨detail, rfl⟩

theorem clean_hasReference {cred : Json} (h : cred.isObj = true) (refs : List String) :
    Clean Refused (raise (hasReference cred refs)) := by
  have hok : ∃ b, hasReference cred refs = .ok b := by
    induction refs with
    | nil => exact ⟨false, rfl⟩
    | cons r refs ih =>
      simp only [hasReference, get_eq_field h, bind, Except.bind]
      split
      · exact ⟨true, rfl⟩
      · exact ih
  obtain ⟨b, hb⟩ := hok
  rw [hb]
  exact .ok b

/-- A preflight whose own checks pass. -/
structure Preflighted (spec identity : Json) : Prop where
  configured : identity.field "preflight" ≠ .null
  keys : hasKeys (identity.field "preflight") ["url", "expected_status", "json_fields"] = true
  url : preflightUrl spec ((identity.field "preflight").field "url") = .ok ()
  status : (((identity.field "preflight").field "expected_status").int?.any fun code =>
    200 ≤ code && code < 300) = true
  matched : scalarMatches ((identity.field "preflight").field "json_fields") = true

/-- An identity with a preflight and no identifier. -/
def Nameless (spec identity : Json) : Prop :=
  Preflighted spec identity ∧ identity.hasField "id" = false

omit [Unicode] in
theorem failing_item {j : Json} (hobj : j.isObj = true) (k : String) :
    Failing Refused (raise (j.item k)) fun r => r = .raised .keyError ∧ j.hasField k = false := by
  cases hk : j.hasField k with
  | true =>
    rw [item_eq_field hk]
    exact (Failing.ok _).congr fun r => by simp
  | false =>
    refine (failing_raise _).congr fun r => ?_
    rw [item_eq_keyError hobj hk]
    simp [eq_comm]

theorem failing_checkPreflight {spec identity : Json} (hspec : Requested spec)
    (hobj : identity.isObj = true) (hcred : (identity.field "credential").isObj = true) (i : ℕ) :
    Failing Refused (checkPreflight spec identity i) fun r =>
      r = .raised .keyError ∧ Nameless spec identity := by
  have hfield : identity.hasField "credential" = true :=
    hasField_of_field_ne_null fun hnull => by simp [hnull, Json.isObj] at hcred
  unfold checkPreflight
  rw [get_eq_field hobj]
  refine .ok_bind rfl ?_
  split
  · rename_i hnull
    refine (Failing.ok _).congr fun r => ⟨False.elim, ?_⟩
    rintro ⟨-, hp, -⟩
    exact hp.configured (beq_iff_eq.mp hnull)
  rename_i hnull
  refine ((clean_ensure ..).seq fun _ =>
    (clean_refuseValueError (clean_preflightUrl hspec _) _).seq fun _ =>
    (clean_ensure ..).seq fun _ => (clean_ensure ..).seq fun _ =>
    .ok_bind (congrArg raise (item_eq_field hfield)) ((failing_item hobj "id").bind fun id _ =>
    (clean_ensure ..).bind fun _ _ => (clean_hasReference hcred _).bind fun _ _ =>
    clean_ensure ..)).congr fun r => ?_
  have hrefuse : ∀ {x : Except Exn Unit} {refusal : Refusal},
      refuseValueError refusal x = .ok () ↔ x = .ok () := fun {x refusal} => by
    rcases x with (- | - | - | - | -) | - <;> simp [refuseValueError]
  simp only [false_or, ensure_eq_ok_iff, hrefuse]
  constructor
  · rintro ⟨hkeys, hurl, hstatus, hmatched, ⟨rfl, hid⟩ | ⟨_, _, hfalse⟩⟩
    · exact ⟨rfl, ⟨fun h => hnull (beq_iff_eq.mpr h), hkeys, hurl, hstatus, hmatched⟩, hid⟩
    · exact hfalse.elim
  · rintro ⟨rfl, ⟨-, hkeys, hurl, hstatus, hmatched⟩, hid⟩
    exact ⟨hkeys, hurl, hstatus, hmatched, .inl ⟨rfl, hid⟩⟩

/-! ## The whole document -/

/-- The checks of a list come to an element of this kind: all before it pass. -/
def Reaches (check : Json → ℕ → Except Refusal Unit) (kind : Json → Prop) (l : List Json) : Prop :=
  ∃ before p after, l.zipIdx = before ++ p :: after ∧ (∀ b ∈ before, check b.1 b.2 = .ok ()) ∧
    kind p.1

omit [Unicode] in
theorem failing_forM {check : Json → ℕ → Except Refusal Unit} {kind : Json → Prop} {e : Exn}
    {l : List Json} (h : ∀ x ∈ l, ∀ i, Failing Refused (check x i) fun r => r = .raised e ∧ kind x) :
    Failing Refused (l.zipIdx.forM fun p => check p.1 p.2) fun r =>
      r = .raised e ∧ Reaches check kind l := by
  refine (Failing.forM _ fun p hp => h p.1 (List.fst_mem_of_mem_zipIdx hp) p.2).congr fun r => ?_
  constructor
  · rintro ⟨before, p, after, hsplit, hbefore, rfl, hkind⟩
    exact ⟨rfl, before, p, after, hsplit, hbefore, hkind⟩
  · rintro ⟨rfl, before, p, after, hsplit, hbefore, hkind⟩
    exact ⟨before, p, after, hsplit, hbefore, rfl, hkind⟩

/-- A value that the checks come to and cannot read, with what they raise then: something to
iterate over that is a number or `True`, a decision or the type of a credential that is a list or
an object, and an identity with a preflight and without an identifier. -/
inductive Unread (spec : Json) (seen : List Text) : Exn → Prop
  | expectedAccess (h : Uniterable (spec.field "expected_access")) : Unread spec seen .typeError
  | decision {expected : List Json} (hlist : eachOf (spec.field "expected_access") = .ok expected)
      (h : Reaches (checkExpected seen) (UnhashableDecision seen) expected) :
      Unread spec seen .typeError
  | denyStatus (hexpected : checkExpectedAccess spec seen = .ok ())
      (h : Uniterable (spec.field "deny_status")) : Unread spec seen .typeError
  | setup (hexpected : checkExpectedAccess spec seen = .ok ())
      (hdeny : checkDenyStatus spec = .ok ()) (hresource : checkResource spec seen = .ok ())
      (h : Uniterable (spec.field "setup")) : Unread spec seen .typeError
  | credential {identities : List Json} (hexpected : checkExpectedAccess spec seen = .ok ())
      (hdeny : checkDenyStatus spec = .ok ()) (hresource : checkResource spec seen = .ok ())
      (hsetup : checkSetup spec seen = .ok ()) (hlist : caseIdentities spec = .ok identities)
      (h : Reaches rejectLiteralCredential UnhashableType identities) : Unread spec seen .typeError
  | identifier {identities : List Json} (hexpected : checkExpectedAccess spec seen = .ok ())
      (hdeny : checkDenyStatus spec = .ok ()) (hresource : checkResource spec seen = .ok ())
      (hsetup : checkSetup spec seen = .ok ()) (hliteral : rejectLiteralCredentials spec = .ok ())
      (hreference : rejectEnvironmentReferences "spec" spec = .ok ())
      (hlist : caseIdentities spec = .ok identities)
      (h : Reaches (checkPreflight spec) (Nameless spec) identities) : Unread spec seen .keyError

theorem failing_checkExpectedAccess (spec : Json) (seen : List Text) :
    Failing Refused (checkExpectedAccess spec seen) fun r => r = .raised .typeError ∧
      (Uniterable (spec.field "expected_access") ∨
        ∃ expected, eachOf (spec.field "expected_access") = .ok expected ∧
          Reaches (checkExpected seen) (UnhashableDecision seen) expected) := by
  refine ((failing_eachOf _).bind fun expected _ =>
    failing_forM fun x _ i => failing_checkExpected seen x i).congr fun r => ?_
  constructor
  · rintro (⟨rfl, h⟩ | ⟨expected, hlist, rfl, h⟩)
    · exact ⟨rfl, .inl h⟩
    · exact ⟨rfl, .inr ⟨expected, hlist, h⟩⟩
  · rintro ⟨rfl, h | ⟨expected, hlist, h⟩⟩
    · exact .inl ⟨rfl, h⟩
    · exact .inr ⟨expected, hlist, rfl, h⟩

omit [Unicode] in
theorem failing_checkDenyStatus (spec : Json) :
    Failing Refused (checkDenyStatus spec) fun r =>
      r = .raised .typeError ∧ Uniterable (spec.field "deny_status") :=
  ((failing_eachOf _).bind fun codes _ =>
    Clean.forM codes.zipIdx fun p => clean_checkDenyCode p.1 p.2).congr fun r => by simp

theorem failing_checkSetup (spec : Json) (seen : List Text) :
    Failing Refused (checkSetup spec seen) fun r =>
      r = .raised .typeError ∧ Uniterable (spec.field "setup") :=
  ((failing_eachOf _).bind fun steps _ => clean_checkSteps spec seen 0 steps []).congr fun r => by
    simp

omit [Unicode] in
theorem clean_caseIdentities {spec : Json} {identities : List Json}
    (h : spec.field "identities" = .arr identities) : Clean Refused (caseIdentities spec) := by
  unfold caseIdentities
  rw [h]
  exact .ok_bind (eachOf_arr identities) (.ok _)

theorem failing_rejectLiteralCredentials {spec : Json} {declared : List Json}
    (h : spec.field "identities" = .arr declared) :
    Failing Refused (rejectLiteralCredentials spec) fun r => r = .raised .typeError ∧
      ∃ identities, caseIdentities spec = .ok identities ∧
        Reaches rejectLiteralCredential UnhashableType identities := by
  refine ((clean_caseIdentities h).clean_bind fun identities _ =>
    failing_forM fun x _ i => failing_rejectLiteralCredential x i).congr fun r => ?_
  exact ⟨fun ⟨identities, hlist, hr, h⟩ => ⟨hr, identities, hlist, h⟩,
    fun ⟨hr, identities, hlist, h⟩ => ⟨identities, hlist, hr, h⟩⟩

theorem failing_validatePreflight {spec : Json} {declared : List Json}
    (h : spec.field "identities" = .arr declared) (hrequest : Requested spec)
    (hliteral : rejectLiteralCredentials spec = .ok ()) :
    Failing Refused (validatePreflight spec) fun r => r = .raised .keyError ∧
      ∃ identities, caseIdentities spec = .ok identities ∧
        Reaches (checkPreflight spec) (Nameless spec) identities := by
  have hobj : ∀ identities, caseIdentities spec = .ok identities → ∀ x ∈ identities,
      x.isObj = true ∧ (x.field "credential").isObj = true := fun identities hlist x hx => by
    obtain ⟨all, hall, hchecked⟩ := bind_eq_ok hliteral
    obtain rfl := Except.ok.inj (hlist.symm.trans hall)
    obtain ⟨i, hi⟩ := forM_zipIdx_eq_ok hchecked hx
    obtain ⟨⟨⟩, hx, hi⟩ := bind_eq_ok hi
    obtain ⟨⟨⟩, hcred, -⟩ := bind_eq_ok hi
    exact ⟨ensure_eq_ok hx, ensure_eq_ok hcred⟩
  refine ((clean_caseIdentities h).clean_bind fun identities hlist => failing_forM fun x hx i =>
    failing_checkPreflight hrequest (hobj _ hlist x hx).1 (hobj _ hlist x hx).2 i).congr fun r => ?_
  exact ⟨fun ⟨identities, hlist, hr, h⟩ => ⟨hr, identities, hlist, h⟩,
    fun ⟨hr, identities, hlist, h⟩ => ⟨identities, hlist, hr, h⟩⟩

/-- What `_validate_spec` fails with besides its refusals. -/
theorem failing_validateSpec (spec : Json) :
    Failing Refused (validateSpec spec) fun r =>
      ∃ seen, checkShape spec = .ok seen ∧ ∃ e, r = .raised e ∧ Unread spec seen e := by
  refine (clean_checkShape spec).clean_bind fun seen hseen => ?_
  obtain ⟨declared, hdeclared, -, -, hrequest⟩ := checkShape_eq_ok hseen
  refine ((failing_checkExpectedAccess spec seen).seq fun _ =>
    (failing_checkDenyStatus spec).seq fun _ => (clean_checkResource spec seen).seq fun _ =>
    (failing_checkSetup spec seen).seq fun _ =>
    (failing_rejectLiteralCredentials hdeclared).seq fun hliteral =>
    (clean_rejectEnvironmentReferences "spec" spec).seq fun _ =>
    (failing_validatePreflight hdeclared hrequest hliteral).seq fun _ =>
    Failing.ok spec).congr fun r => ?_
  simp only [false_or, and_false, or_false]
  constructor
  · rintro (⟨rfl, h | ⟨_, hlist, h⟩⟩ | ⟨h₁, ⟨rfl, h⟩ | ⟨h₂, h₃, ⟨rfl, h⟩ | ⟨h₄,
      ⟨rfl, _, hlist, h⟩ | ⟨h₅, h₆, rfl, _, hlist, h⟩⟩⟩⟩)
    · exact ⟨_, rfl, .expectedAccess h⟩
    · exact ⟨_, rfl, .decision hlist h⟩
    · exact ⟨_, rfl, .denyStatus h₁ h⟩
    · exact ⟨_, rfl, .setup h₁ h₂ h₃ h⟩
    · exact ⟨_, rfl, .credential h₁ h₂ h₃ h₄ hlist h⟩
    · exact ⟨_, rfl, .identifier h₁ h₂ h₃ h₄ h₅ h₆ hlist h⟩
  · rintro ⟨e, rfl, h⟩
    cases h with
    | expectedAccess h => exact .inl ⟨rfl, .inl h⟩
    | decision hlist h => exact .inl ⟨rfl, .inr ⟨_, hlist, h⟩⟩
    | denyStatus h₁ h => exact .inr ⟨h₁, .inl ⟨rfl, h⟩⟩
    | setup h₁ h₂ h₃ h => exact .inr ⟨h₁, .inr ⟨h₂, h₃, .inl ⟨rfl, h⟩⟩⟩
    | credential h₁ h₂ h₃ h₄ hlist h =>
      exact .inr ⟨h₁, .inr ⟨h₂, h₃, .inr ⟨h₄, .inl ⟨rfl, _, hlist, h⟩⟩⟩⟩
    | identifier h₁ h₂ h₃ h₄ h₅ h₆ hlist h =>
      exact .inr ⟨h₁, .inr ⟨h₂, h₃, .inr ⟨h₄, .inr ⟨h₅, h₆, rfl, _, hlist, h⟩⟩⟩⟩

/-- A document is returned or refused with a status of 400 exactly when its checks come to no
value that they cannot read. -/
theorem validateSpec_clean_iff (spec : Json) :
    (validateSpec spec = .ok spec ∨ ∃ detail, validateSpec spec = .error (.http 400 detail)) ↔
      ∀ seen e, checkShape spec = .ok seen → ¬ Unread spec seen e := by
  have hfailing := failing_validateSpec spec
  constructor
  · rintro h seen e hseen hunread
    have hraised := hfailing.complete _ ⟨seen, hseen, e, rfl, hunread⟩
    obtain h | ⟨detail, h⟩ := h
    · cases hraised.symm.trans h
    · cases hraised.symm.trans h
  · intro h
    cases hv : validateSpec spec with
    | ok s => exact .inl (congrArg _ (validateSpec_eq_ok hv).1)
    | error r =>
      obtain ⟨detail, rfl⟩ | ⟨seen, hseen, e, -, hunread⟩ := hfailing.sound r hv
      · exact .inr ⟨detail, rfl⟩
      · exact (h seen e hseen hunread).elim

omit [Unicode] in
/-- A number of expectations is no list of them. -/
theorem validateSpec_clean_counterexample :
    ¬ ∀ spec : Json, spec.isObj = true → @validateSpec Unicode.ascii spec = .ok spec ∨
      ∃ detail, @validateSpec Unicode.ascii spec = .error (.http 400 detail) := by
  let _ := Unicode.ascii
  intro hall
  let spec := exampleCase [exampleIdentity (.str "alice")] [("expected_access", .int 1)]
  have hraised : validateSpec spec = .error (.raised .typeError) := by decide +kernel
  obtain h | ⟨detail, h⟩ := hall spec rfl
  · cases hraised.symm.trans h
  · cases hraised.symm.trans h

end VardrMap.TestCases
