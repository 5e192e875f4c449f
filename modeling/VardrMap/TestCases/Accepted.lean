import VardrMap.TestCases

/-!
# Accepted test cases

What a document is that `_validate_spec` returns: no text in it refers to the environment of
the runner, and no identity carries more of a credential than one reference to it.
-/
namespace VardrMap.TestCases
open Lib

/-! ## Checks in a row -/

section
variable {ε α : Type}

/-- Numbered elements are checked when every element is. -/
theorem forM_zipIdx_eq_ok {f : α × ℕ → Except ε Unit} {l : List α}
    (h : l.zipIdx.forM f = .ok ()) {a : α} (ha : a ∈ l) : ∃ i, f (a, i) = .ok () := by
  obtain ⟨i, hi⟩ := List.mem_iff_getElem?.mp ha
  exact ⟨i, forM_eq_ok h (a, i) (List.mem_zipIdx_iff_getElem?.mpr hi)⟩

end

/-! ## Fields -/

section
variable {j : Json} {k : String}

theorem get_eq_field (h : j.isObj = true) (k : String) : j.get k = .ok (j.field k) := by
  cases j with
  | obj fs => rfl
  | _ => cases h

theorem item_eq_field (h : j.hasField k = true) : j.item k = .ok (j.field k) := by
  cases j with
  | obj fs =>
    obtain ⟨v, hv⟩ := Option.isSome_iff_exists.mp h
    simp [Json.item, Json.field, hv]
  | _ => cases h

theorem item_eq_keyError (hobj : j.isObj = true) (h : j.hasField k = false) :
    j.item k = .error .keyError := by
  cases j with
  | obj fs => simp [Json.item, Option.isSome_eq_false_iff.mp h |> Option.isNone_iff_eq_none.mp]
  | _ => cases hobj

/-- An absent field reads as `None`. -/
theorem hasField_of_field_ne_null (h : j.field k ≠ .null) : j.hasField k = true := by
  cases j with
  | obj fs =>
    cases hk : fs.lookup k with
    | none => simp [Json.field, hk] at h
    | some v => simp [Json.hasField, hk]
  | _ => exact absurd rfl h

end

/-- The URL of the request is there to be compared with. -/
structure Requested (spec : Json) : Prop where
  request : spec.hasField "request" = true
  url : (spec.field "request").hasField "url" = true

/-! ## References to the environment -/

mutual

/-- Every text of a document, keys included. -/
def texts : Json → List String
  | .str s => [s]
  | .arr xs => textsList xs
  | .obj fs => textsFields fs
  | _ => []

def textsList : List Json → List String
  | [] => []
  | x :: xs => texts x ++ textsList xs

def textsFields : List (String × Json) → List String
  | [] => []
  | (k, x) :: fs => k :: texts x ++ textsFields fs

end

theorem rejectReference_eq_ok {text path : String} {u : Unit}
    (h : rejectReference text path = .ok u) : ¬ "$\x7b".toList <:+: text.toList := by
  have hnone := ensure_eq_ok h
  rw [Bool.not_eq_true', mentions, Option.isSome_eq_false_iff, Option.isNone_iff_eq_none] at hnone
  exact Text.cut_eq_none_iff.mp hnone

mutual

theorem rejectEnvironmentReferences_eq_ok {path : String} {j : Json} {u : Unit}
    (h : rejectEnvironmentReferences path j = .ok u) :
    ∀ s ∈ texts j, ¬ "$\x7b".toList <:+: s.toList := by
  cases j with
  | str s =>
    intro t ht
    rw [texts, List.mem_singleton] at ht
    exact ht ▸ rejectReference_eq_ok h
  | arr xs => exact rejectReferenceList_eq_ok h
  | obj fs => exact rejectReferenceFields_eq_ok h
  | _ => exact fun _ ht => (List.not_mem_nil ht).elim

theorem rejectReferenceList_eq_ok {path : String} {i : ℕ} {xs : List Json} {u : Unit}
    (h : rejectReferenceList path i xs = .ok u) :
    ∀ s ∈ textsList xs, ¬ "$\x7b".toList <:+: s.toList := by
  cases xs with
  | nil => exact fun _ ht => (List.not_mem_nil ht).elim
  | cons x xs =>
    obtain ⟨⟨⟩, hx, h⟩ := bind_eq_ok h
    intro t ht
    rcases List.mem_append.mp ht with ht | ht
    · exact rejectEnvironmentReferences_eq_ok hx t ht
    · exact rejectReferenceList_eq_ok h t ht

theorem rejectReferenceFields_eq_ok {path : String} {fs : List (String × Json)} {u : Unit}
    (h : rejectReferenceFields path fs = .ok u) :
    ∀ s ∈ textsFields fs, ¬ "$\x7b".toList <:+: s.toList := by
  cases fs with
  | nil => exact fun _ ht => (List.not_mem_nil ht).elim
  | cons f fs =>
    obtain ⟨⟨⟩, hk, h⟩ := bind_eq_ok h
    obtain ⟨⟨⟩, hx, h⟩ := bind_eq_ok h
    intro t ht
    rw [textsFields, List.cons_append, List.mem_cons, List.mem_append] at ht
    rcases ht with rfl | ht | ht
    · exact rejectReference_eq_ok hk
    · exact rejectEnvironmentReferences_eq_ok hx t ht
    · exact rejectReferenceFields_eq_ok h t ht

end

variable [Unicode]

/-! ## The checks of a document -/

/-- The checks that an accepted document has passed, in their order. -/
theorem validateSpec_eq_ok {spec s : Json} (h : validateSpec spec = .ok s) :
    s = spec ∧ ∃ seen, checkShape spec = .ok seen ∧ checkExpectedAccess spec seen = .ok () ∧
      checkDenyStatus spec = .ok () ∧ checkResource spec seen = .ok () ∧
      checkSetup spec seen = .ok () ∧ rejectLiteralCredentials spec = .ok () ∧
      rejectEnvironmentReferences "spec" spec = .ok () ∧ validatePreflight spec = .ok () := by
  obtain ⟨seen, hseen, h⟩ := bind_eq_ok h
  obtain ⟨⟨⟩, hexpected, h⟩ := bind_eq_ok h
  obtain ⟨⟨⟩, hdeny, h⟩ := bind_eq_ok h
  obtain ⟨⟨⟩, hresource, h⟩ := bind_eq_ok h
  obtain ⟨⟨⟩, hsetup, h⟩ := bind_eq_ok h
  obtain ⟨⟨⟩, hliteral, h⟩ := bind_eq_ok h
  obtain ⟨⟨⟩, hreference, h⟩ := bind_eq_ok h
  obtain ⟨⟨⟩, hpreflight, h⟩ := bind_eq_ok h
  exact ⟨(Except.ok.inj h).symm, seen, hseen, hexpected, hdeny, hresource, hsetup, hliteral,
    hreference, hpreflight⟩

/-! ## Credentials -/

/-- A case identity, or the identity that reads for the write verification. -/
inductive CaseIdentity (spec : Json) : Json → Prop
  | declared {identities : List Json} {identity : Json}
      (h : spec.field "identities" = .arr identities) (hmem : identity ∈ identities) :
      CaseIdentity spec identity
  | reader (h : (spec.field "write_verification").hasField "identity" = true) :
      CaseIdentity spec ((spec.field "write_verification").field "identity")

/-- Nothing, or a value that is printed as white space. -/
def Blank (value : Json) : Prop :=
  value.truthy = false ∨ ∀ c ∈ value.toStr.toList, Unicode.isSpace c = true

theorem strip_eq_nil_iff {l : Text} : Text.strip l = [] ↔ ∀ c ∈ l, Unicode.isSpace c = true := by
  rw [Text.strip, List.rdropWhile_eq_nil_iff]
  refine ⟨fun h => ?_, fun h c hc => h c (List.dropWhile_sublist _ |>.subset hc)⟩
  have hrest : l.dropWhile Unicode.isSpace = [] := by
    cases hl : l.dropWhile Unicode.isSpace with
    | nil => rfl
    | cons c cs =>
      have hc := List.head?_dropWhile_not Unicode.isSpace l
      rw [hl] at hc
      have hspace := h c (hl ▸ List.mem_cons_self ..)
      simp [hspace] at hc
  exact List.dropWhile_eq_nil_iff.mp hrest

theorem present_iff {value : Json} : present value = true ↔ ¬ Blank value := by
  rw [present, Bool.not_eq_true', ← Bool.not_eq_true, List.isEmpty_iff, strip_eq_nil_iff,
    Json.toStrOr, Blank]
  cases value.truthy with
  | false => simp
  | true => simp

/-- A document whose shape is right has identities and a request with a URL. -/
theorem checkShape_eq_ok {spec : Json} {seen : List Text} (h : checkShape spec = .ok seen) :
    ∃ identities, spec.field "identities" = .arr identities ∧ identities ≠ [] ∧
      checkIdentities 0 identities [] = .ok seen ∧ Requested spec := by
  obtain ⟨⟨⟩, -, h⟩ := bind_eq_ok h
  obtain ⟨⟨⟩, -, h⟩ := bind_eq_ok h
  obtain ⟨⟨⟩, -, h⟩ := bind_eq_ok h
  obtain ⟨⟨⟩, hlist, h⟩ := bind_eq_ok h
  obtain ⟨found, hfound, h⟩ := bind_eq_ok h
  obtain ⟨⟨⟩, hrequest, h⟩ := bind_eq_ok h
  obtain rfl := Except.ok.inj h
  obtain ⟨⟨⟩, hobj, hrequest⟩ := bind_eq_ok hrequest
  obtain ⟨⟨⟩, -, hrequest⟩ := bind_eq_ok hrequest
  obtain ⟨⟨⟩, hurl, -⟩ := bind_eq_ok hrequest
  have hobj := ensure_eq_ok hobj
  have hurl := present_iff.mp (ensure_eq_ok hurl)
  have hlist := ensure_eq_ok hlist
  have hrequested : Requested spec := by
    refine ⟨hasField_of_field_ne_null fun hnull => ?_, hasField_of_field_ne_null fun hnull => ?_⟩
    · simp [hnull, Json.isObj] at hobj
    · exact hurl (.inl (by simp [hnull, Json.truthy]))
  cases hidentities : spec.field "identities" with
  | arr identities =>
    rw [hidentities] at hfound hlist
    exact ⟨identities, rfl, by simpa [Json.arr?] using hlist, hfound, hrequested⟩
  | _ => simp [hidentities, Json.arr?] at hlist

omit [Unicode] in
@[simp] theorem eachOf_arr (xs : List Json) : eachOf (.arr xs) = .ok xs := by
  cases xs <;> rfl

omit [Unicode] in
theorem mem_caseIdentities {spec identity : Json} {identities : List Json}
    (h : caseIdentities spec = .ok identities) (hidentity : CaseIdentity spec identity) :
    identity ∈ identities := by
  obtain ⟨declared, hdeclared, h⟩ := bind_eq_ok h
  have hall := Except.ok.inj h
  cases hidentity with
  | declared hlist hmem =>
    rw [hlist, eachOf_arr] at hdeclared
    have hmem : identity ∈ declared := Except.ok.inj hdeclared ▸ hmem
    rw [← hall]
    split
    · exact List.mem_append_left _ hmem
    · exact hmem
  | reader hfield =>
    rw [← hall]
    simp [hfield]

/-- What an identity may carry of a credential. -/
structure Referenced (credential : Json) : Prop where
  literal : Blank (credential.field "value")
  single : Blank (credential.field "value_env") ∨ Blank (credential.field "value_keychain")
  secret : ∀ type ∈ ["bearer", "api_key_header"], credential.field "type" = .str type →
    ¬ (Blank (credential.field "value_env") ∧ Blank (credential.field "value_keychain"))

theorem rejectLiteralCredential_eq_ok {identity : Json} {i : ℕ} {u : Unit}
    (h : rejectLiteralCredential identity i = .ok u) :
    Referenced (identity.field "credential") := by
  obtain ⟨⟨⟩, -, h⟩ := bind_eq_ok h
  obtain ⟨⟨⟩, -, h⟩ := bind_eq_ok h
  obtain ⟨known, -, h⟩ := bind_eq_ok h
  obtain ⟨⟨⟩, -, h⟩ := bind_eq_ok h
  obtain ⟨⟨⟩, hvalue, h⟩ := bind_eq_ok h
  obtain ⟨⟨⟩, hsingle, h⟩ := bind_eq_ok h
  obtain ⟨⟨⟩, hsecret, -⟩ := bind_eq_ok h
  have hvalue := ensure_eq_ok hvalue
  have hsingle := ensure_eq_ok hsingle
  have hsecret := ensure_eq_ok hsecret
  simp only [secretRefs, List.filter_cons, List.filter_nil] at hsingle hsecret
  have hblank : ∀ {value}, present value = false → Blank value := fun {value} hv => by
    by_contra hnot
    simp [present_iff.mpr hnot] at hv
  refine ⟨hblank (by simpa using hvalue), ?_, fun type htype hctype hnone => ?_⟩
  · cases henv : present ((identity.field "credential").field "value_env") with
    | false => exact .inl (hblank henv)
    | true =>
      cases hkeychain : present ((identity.field "credential").field "value_keychain") with
      | false => exact .inr (hblank hkeychain)
      | true => simp [henv, hkeychain] at hsingle
  · have habsent : ∀ {value}, Blank value → present value = false := fun {value} hv => by
      rw [← Bool.not_eq_true, present_iff]
      exact not_not_intro hv
    simp only [habsent hnone.1, habsent hnone.2, hctype] at hsecret
    rcases List.mem_cons.mp htype with rfl | htype
    · simp at hsecret
    · rw [List.mem_singleton.mp htype] at hsecret
      simp at hsecret

/-! ## No literal secret -/

/-- No text refers to the environment, and no identity carries a live credential. -/
structure SecretFree (spec : Json) : Prop where
  reference : ∀ s ∈ texts spec, ¬ "$\x7b".toList <:+: s.toList
  referenced : ∀ identity, CaseIdentity spec identity → Referenced (identity.field "credential")

/-- An accepted case holds no literal secret. -/
theorem accepted_secretFree {spec s : Json} (h : validateSpec spec = .ok s) : SecretFree s := by
  obtain ⟨rfl, seen, -, -, -, -, -, hliteral, hreference, -⟩ := validateSpec_eq_ok h
  refine ⟨rejectEnvironmentReferences_eq_ok hreference, fun identity hidentity => ?_⟩
  obtain ⟨identities, hidentities, hall⟩ := bind_eq_ok hliteral
  obtain ⟨i, hi⟩ := forM_zipIdx_eq_ok hall (mem_caseIdentities hidentities hidentity)
  exact rejectLiteralCredential_eq_ok hi

omit [Unicode] in
/-- An identity with a reference to its token. -/
def exampleIdentity (id : Json) : Json :=
  .obj [("id", id),
    ("credential", .obj [("type", .str "bearer"), ("value_env", .str "SHOP_TOKEN")])]

omit [Unicode] in
/-- A case about one order, with further fields. -/
def exampleCase (identities : List Json) (rest : List (String × Json)) : Json :=
  .obj ([("id", .str "orders"), ("identities", .arr identities),
    ("request", .obj [("method", .str "GET"), ("url", .str "https://shop.test/orders/1")])] ++ rest)

omit [Unicode] in
theorem accepted_secretFree_example :
    @SecretFree Unicode.ascii (exampleCase [exampleIdentity (.str "alice")]
      [("write_verification", .obj [("identity", exampleIdentity (.str "reader"))])]) := by
  let _ := Unicode.ascii
  have haccepted : validateSpec (exampleCase [exampleIdentity (.str "alice")]
      [("write_verification", .obj [("identity", exampleIdentity (.str "reader"))])]) =
      .ok (exampleCase [exampleIdentity (.str "alice")]
        [("write_verification", .obj [("identity", exampleIdentity (.str "reader"))])]) := by
    decide +kernel
  exact accepted_secretFree haccepted

end VardrMap.TestCases
