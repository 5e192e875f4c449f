import VardrMap.AuthorizationCoverage
import VardrMap.TestCases.Accepted

/-!
# What is expected of an identity

Three readers go through `expected_access`: the validator compares the text of an entry's
identifier with the trimmed text of an identity's, an assessment looks the identifier up as a value
and wants a single entry, and coverage compares texts and wants a single decision. On an accepted
case they agree exactly when every entry repeats the identifier as it stands and no decision is
declared twice for one identity.
-/
namespace VardrMap.TestCases
open Lib

/-- The declared identities. -/
def identitiesOf (spec : Json) : List Json := (spec.field "identities").arr?.getD []

/-- The entries of `expected_access`. -/
def entriesOf (spec : Json) : List Json := (spec.field "expected_access").arr?.getD []

/-- The two fields of an entry as an assessment keeps them. -/
def expectation (entry : Json) : Json × Json := (entry.field "identity_id", entry.field "decision")

variable [Unicode]

/-! ## Accepted identities and entries -/

theorem checkIdentities_eq_ok {i : ℕ} {identities : List Json} {seen names : List Text}
    (h : checkIdentities i identities seen = .ok names) :
    names = seen ++ identities.map identName ∧ (∀ x ∈ identities, identName x ≠ []) ∧
      (seen.Nodup → names.Nodup) := by
  induction identities generalizing i seen with
  | nil =>
    obtain rfl := Except.ok.inj h
    exact ⟨by simp, nofun, id⟩
  | cons identity identities ih =>
    obtain ⟨⟨⟩, hname, h⟩ := bind_eq_ok h
    obtain ⟨⟨⟩, hnew, h⟩ := bind_eq_ok h
    have hname : identName identity ≠ [] := by simpa using ensure_eq_ok hname
    have hnew : identName identity ∉ seen := by simpa using ensure_eq_ok hnew
    obtain ⟨rfl, hnames, hnodup⟩ := ih h
    refine ⟨by simp, List.forall_mem_cons.mpr ⟨hname, hnames⟩, fun hseen => hnodup ?_⟩
    exact List.nodup_append.mpr ⟨hseen, List.nodup_singleton _, fun a ha b hb hab =>
      hnew (List.mem_singleton.mp hb ▸ hab ▸ ha)⟩

/-- The validator finds the entry's text among the identifiers. -/
def Matched (entry identity : Json) : Prop :=
  (entry.field "identity_id").toStr.toList = identName identity

/-- What the validator has established of the entries and the identities. -/
structure Declared (spec : Json) : Prop where
  identities : spec.field "identities" = .arr (identitiesOf spec)
  nonempty : identitiesOf spec ≠ []
  identified : ∀ i ∈ identitiesOf spec, i.isObj = true ∧ (i.field "id").truthy = true ∧
    identName i = Text.strip (i.field "id").toStr.toList
  distinct : ((identitiesOf spec).map identName).Nodup
  entries : spec.field "expected_access" = .arr (entriesOf spec) ∨
    entriesOf spec = [] ∧ (spec.field "expected_access").truthy = false
  read : ∀ e ∈ entriesOf spec, e.isObj = true ∧ (e.field "identity_id").truthy = true
  decided : ∀ e ∈ entriesOf spec, ∃ d ∈ ["allow", "deny", "skip"], e.field "decision" = .str d
  matched : ∀ e ∈ entriesOf spec, ∃ i ∈ identitiesOf spec, Matched e i

theorem identName_eq {identity : Json} (h : identName identity ≠ []) :
    identity.isObj = true ∧ (identity.field "id").truthy = true ∧
      identName identity = Text.strip (identity.field "id").toStr.toList := by
  unfold identName at h ⊢
  split at h
  · rename_i hobj
    rw [if_pos hobj]
    unfold Json.toStrOr at h ⊢
    split at h
    · rename_i htruthy
      exact ⟨hobj, htruthy, by rw [if_pos htruthy]⟩
    · exact absurd rfl h
  · exact absurd rfl h

theorem checkExpected_eq_ok {seen : List Text} {entry : Json} {i : ℕ} {u : Unit}
    (h : checkExpected seen entry i = .ok u) :
    entry.isObj = true ∧ ((entry.field "identity_id").toStrOr "").toList ∈ seen ∧
      ∃ d ∈ ["allow", "deny", "skip"], entry.field "decision" = .str d := by
  obtain ⟨⟨⟩, hobj, h⟩ := bind_eq_ok h
  obtain ⟨⟨⟩, hseen, h⟩ := bind_eq_ok h
  obtain ⟨known, hknown, h⟩ := bind_eq_ok h
  have hknown := raise_eq_ok hknown
  obtain ⟨key, hkey, hknown⟩ := bind_eq_ok hknown
  obtain rfl := Json.asKey_eq_ok hkey
  obtain rfl := Except.ok.inj hknown
  obtain ⟨d, hd, hdecision⟩ := List.any_eq_true.mp (ensure_eq_ok h)
  exact ⟨ensure_eq_ok hobj, List.contains_iff_mem.mp (ensure_eq_ok hseen), d, hd,
    beq_iff_eq.mp hdecision⟩

omit [Unicode] in
/-- Objects that are iterated over come from a list, or there are none. -/
theorem eachOf_objects {value : Json} {entries : List Json} (h : eachOf value = .ok entries)
    (hobj : ∀ e ∈ entries, e.isObj = true) :
    value = .arr entries ∨ entries = [] ∧ value.truthy = false := by
  have hiter := raise_eq_ok h
  cases htruthy : value.truthy with
  | false =>
    rw [Json.orElse, if_neg (by simp [htruthy])] at hiter
    exact .inr ⟨(Except.ok.inj hiter).symm, rfl⟩
  | true =>
    rw [Json.orElse, if_pos htruthy] at hiter
    cases value with
    | arr xs => exact .inl (congrArg _ (Except.ok.inj hiter))
    | obj fs =>
      obtain rfl := Except.ok.inj hiter
      cases fs with
      | nil => cases htruthy
      | cons f fs => cases hobj _ (List.mem_cons_self ..)
    | str s =>
      obtain rfl := Except.ok.inj hiter
      cases hs : s.toList with
      | nil =>
        rw [String.toList_eq_nil_iff.mp hs] at htruthy
        cases htruthy
      | cons c cs =>
        rw [hs] at hobj
        cases hobj _ (List.mem_cons_self ..)
    | _ => cases hiter

theorem declared_of_accepted {spec s : Json} (h : validateSpec spec = .ok s) : Declared spec := by
  obtain ⟨-, seen, hshape, hexpected, -⟩ := validateSpec_eq_ok h
  obtain ⟨identities, hlist, hnonempty, hnames, -⟩ := checkShape_eq_ok hshape
  obtain ⟨hseen, hidentities, hnodup⟩ := checkIdentities_eq_ok hnames
  have hdeclared : identitiesOf spec = identities := by simp [identitiesOf, hlist, Json.arr?]
  have hnodup : seen.Nodup := hnodup List.nodup_nil
  rw [List.nil_append] at hseen
  obtain ⟨entries, hentries, hchecked⟩ := bind_eq_ok hexpected
  have hentry : ∀ e ∈ entries, e.isObj = true ∧
      ((e.field "identity_id").toStrOr "").toList ∈ seen ∧
        ∃ d ∈ ["allow", "deny", "skip"], e.field "decision" = .str d := fun e he => by
    obtain ⟨i, hi⟩ := forM_zipIdx_eq_ok hchecked he
    exact checkExpected_eq_ok hi
  have hcases := eachOf_objects hentries fun e he => (hentry e he).1
  have hof : entriesOf spec = entries := by
    obtain hvalue | ⟨rfl, hfalsy⟩ := hcases
    · simp [entriesOf, hvalue, Json.arr?]
    · cases hvalue : spec.field "expected_access" with
      | arr xs => simpa [entriesOf, hvalue, Json.truthy, Json.arr?] using hfalsy
      | _ => simp [entriesOf, hvalue, Json.arr?]
  have hknown : ∀ e ∈ entriesOf spec, (e.field "identity_id").truthy = true ∧
      (e.field "identity_id").toStr.toList ∈ identities.map identName := fun e he => by
    have hmem := hseen ▸ (hentry e (hof ▸ he)).2.1
    unfold Json.toStrOr at hmem
    split at hmem
    · exact ⟨‹_›, hmem⟩
    · obtain ⟨i, hi, hname⟩ := List.mem_map.mp hmem
      exact absurd hname (hidentities i hi)
  rw [← hdeclared] at hlist hnonempty hidentities hknown hseen
  exact {
    identities := hlist
    nonempty := hnonempty
    identified := fun i hi => identName_eq (hidentities i hi)
    distinct := hseen ▸ hnodup
    entries := hof ▸ hcases
    read := fun e he => ⟨(hentry e (hof ▸ he)).1, (hknown e he).1⟩
    decided := fun e he => (hentry e (hof ▸ he)).2.2
    matched := fun e he => by
      obtain ⟨i, hi, hname⟩ := List.mem_map.mp (hknown e he).2
      exact ⟨i, hi, hname.symm⟩ }

/-! ## The two readings -/

omit [Unicode] in
/-- The decision that `assess` expects of an identity. -/
def assessedDecision (spec identity : Json) : Except Exn Json := do
  let expected ← expectedDecisions spec
  let identityId ← (← identity.item "id").asKey
  (soleDecision (decisionsFor expected identityId)).asKey

/-- The decision that coverage expects of an identity. -/
def coveredDecision (spec identity : Json) : Except Exn String := do
  let decisions ← declaredDecisions spec
  return decisionFor decisions (identity.field "id").toStr

theorem assessIdentity_eq_ok {spec identity : Json} {expected : List (Json × Json)}
    {reported : List (String × Json)} {item : IdentityItem}
    (hexpected : expectedDecisions spec = .ok expected)
    (h : assessIdentity spec expected reported identity = .ok item) :
    assessedDecision spec identity = .ok item.expectedDecision := by
  obtain ⟨raw, hraw, h⟩ := bind_eq_ok h
  obtain ⟨identityId, hid, h⟩ := bind_eq_ok h
  obtain ⟨decision, hdecision, h⟩ := bind_eq_ok h
  obtain ⟨p, -, h⟩ := bind_eq_ok h
  obtain rfl := Except.ok.inj h
  simp only [assessedDecision, hexpected, hraw, bind, Except.bind, hid]
  exact hdecision

/-- `None`, `False` or zero: nothing to iterate over, and no reason for the validator to look. -/
def Void : Json → Prop
  | .null => True
  | .bool b => b = false
  | .int n => n = 0
  | .float v _ => v = 0
  | _ => False

/-- An assessment finds something to iterate over. -/
def Expected (spec : Json) : Prop :=
  spec.hasField "expected_access" = true → ¬ Void (spec.field "expected_access")

omit [Unicode] in
theorem iter_eq_ok_iff {value : Json} {entries : List Json}
    (h : value = .arr entries ∨ entries = [] ∧ value.truthy = false) (xs : List Json) :
    value.iter = .ok xs ↔ ¬ Void value ∧ xs = entries := by
  obtain rfl | ⟨rfl, hfalsy⟩ := h
  · simp [Json.iter, Void, eq_comm]
  cases value with
  | null => simp [Json.iter, Void]
  | bool b => simp [Json.iter, Void, show b = false from hfalsy]
  | int n =>
    have hn : n = 0 := by simpa [Json.truthy] using hfalsy
    simp [Json.iter, Void, hn]
  | float v r =>
    have hv : v = 0 := by simpa [Json.truthy] using hfalsy
    simp [Json.iter, Void, hv]
  | nonfinite r => simp [Json.truthy] at hfalsy
  | str s =>
    have hs : s = "" := by simpa [Json.truthy] using hfalsy
    simp [hs, Json.iter, Void, eq_comm]
  | arr ys =>
    have hys : ys = [] := by simpa [Json.truthy] using hfalsy
    simp [hys, Json.iter, Void, eq_comm]
  | obj fs =>
    have hfs : fs = [] := by simpa [Json.truthy] using hfalsy
    simp [hfs, Json.iter, Void, eq_comm]

omit [Unicode] in
theorem expected_access_iter {spec : Json} (hobj : spec.isObj = true)
    (hentries : spec.field "expected_access" = .arr (entriesOf spec) ∨
      entriesOf spec = [] ∧ (spec.field "expected_access").truthy = false) (xs : List Json) :
    (spec.getD "expected_access" (.arr []) >>= Json.iter) = .ok xs ↔
      Expected spec ∧ xs = entriesOf spec := by
  cases spec with
  | obj fs =>
    cases hlookup : fs.lookup "expected_access" with
    | none =>
      have hnone : entriesOf (.obj fs) = [] := by simp [entriesOf, Json.field, hlookup, Json.arr?]
      have hexpected : Expected (.obj fs) := fun h => by simp [Json.hasField, hlookup] at h
      simp [Json.getD, hlookup, bind, Except.bind, Json.iter, hnone, hexpected, eq_comm]
    | some value =>
      have hfield : (Json.obj fs).field "expected_access" = value := by
        simp [Json.field, hlookup]
      have hexpected : Expected (.obj fs) ↔ ¬ Void value := by
        simp [Expected, Json.hasField, hlookup, hfield]
      rw [hexpected, ← iter_eq_ok_iff (hfield ▸ hentries) xs]
      simp [Json.getD, hlookup, bind, Except.bind]
  | _ => cases hobj

omit [Unicode] in
/-- A step that maps the elements with `P` maps a list of them. -/
theorem mapM_eq_ok_map_iff {ε α β : Type} {f : α → Except ε β} {P : α → Prop} {g : α → β}
    {l : List α} (hf : ∀ a ∈ l, ∀ b, f a = .ok b ↔ P a ∧ b = g a) (out : List β) :
    l.mapM f = .ok out ↔ (∀ a ∈ l, P a) ∧ out = l.map g := by
  induction l generalizing out with
  | nil => simp [pure, Except.pure, eq_comm]
  | cons a l ih =>
    have hl := ih fun b hb => hf b (List.mem_cons_of_mem _ hb)
    rw [List.mapM_cons, bind_eq_ok_iff, List.forall_mem_cons, List.map_cons]
    constructor
    · rintro ⟨b, hb, h⟩
      obtain ⟨bs, hbs, h⟩ := bind_eq_ok h
      obtain ⟨ha, rfl⟩ := (hf a (List.mem_cons_self ..) b).mp hb
      obtain ⟨hall, rfl⟩ := (hl bs).mp hbs
      exact ⟨⟨ha, hall⟩, (Except.ok.inj h).symm⟩
    · rintro ⟨⟨ha, hall⟩, rfl⟩
      refine ⟨g a, (hf a (List.mem_cons_self ..) _).mpr ⟨ha, rfl⟩, ?_⟩
      exact bind_eq_ok_iff.mpr ⟨l.map g, (hl _).mpr ⟨hall, rfl⟩, rfl⟩

/-- An assessment reads the entries when there is a value to iterate over and every identifier
can be looked up. -/
theorem expectedDecisions_eq_ok_iff {spec : Json} (hobj : spec.isObj = true) (h : Declared spec)
    (expected : List (Json × Json)) : expectedDecisions spec = .ok expected ↔
      Expected spec ∧ (∀ e ∈ entriesOf spec, (e.field "identity_id").hashable = true) ∧
        expected = (entriesOf spec).map expectation := by
  have hstep : ∀ e ∈ entriesOf spec, ∀ p : Json × Json,
      (do return (← (← e.item "identity_id").asKey, ← e.item "decision") : Except Exn _) = .ok p ↔
        (e.field "identity_id").hashable = true ∧ p = expectation e := fun e he p => by
    obtain ⟨d, -, hd⟩ := h.decided e he
    have hid : e.hasField "identity_id" = true := hasField_of_field_ne_null fun hnull => by
      simpa [hnull, Json.truthy] using (h.read e he).2
    have hdecision : e.hasField "decision" = true := hasField_of_field_ne_null fun hnull => by
      simp [hnull] at hd
    rw [item_eq_field hid, item_eq_field hdecision]
    cases hkey : (e.field "identity_id").hashable with
    | false => simp [bind, Except.bind, Json.asKey, hkey]
    | true => simp [bind, Except.bind, Json.asKey, hkey, pure, Except.pure, expectation, eq_comm]
  have hsplit : expectedDecisions spec = ((spec.getD "expected_access" (.arr []) >>= Json.iter) >>=
      fun entries => entries.mapM fun e => do
        return (← (← e.item "identity_id").asKey, ← e.item "decision")) := by
    rw [bind_assoc]
    rfl
  rw [hsplit, bind_eq_ok_iff]
  constructor
  · rintro ⟨entries, hiter, hmap⟩
    obtain ⟨hexpected, rfl⟩ := (expected_access_iter hobj h.entries entries).mp hiter
    exact ⟨hexpected, (mapM_eq_ok_map_iff hstep expected).mp hmap⟩
  · rintro ⟨hexpected, hmap⟩
    exact ⟨_, (expected_access_iter hobj h.entries _).mpr ⟨hexpected, rfl⟩,
      (mapM_eq_ok_map_iff hstep expected).mpr hmap⟩

/-- Coverage reads every entry. -/
theorem declaredDecisions_eq {spec : Json} (h : Declared spec) :
    declaredDecisions spec = .ok ((entriesOf spec).map fun e =>
      ((e.field "identity_id").toStr, (e.field "decision").toStr)) := by
  have hiter : ((spec.field "expected_access").orElse (.arr [])).iter = .ok (entriesOf spec) := by
    obtain hvalue | ⟨hnone, hfalsy⟩ := h.entries
    · rw [hvalue]
      cases entriesOf spec <;> rfl
    · simp [Json.orElse, hfalsy, hnone, Json.iter]
  unfold declaredDecisions
  rw [hiter]
  refine congrArg Except.ok ?_
  rw [← List.filterMap_eq_map]
  refine List.filterMap_congr fun e he => ?_
  obtain ⟨hobj, htruthy⟩ := h.read e he
  obtain ⟨d, hd, hdecision⟩ := h.decided e he
  have hne : (Json.str d).truthy = true := by
    refine bne_iff_ne.mpr ?_
    rintro rfl
    simp at hd
  rw [hdecision, hobj, htruthy, Json.toStrOr, hne]
  simp [hdecision]

/-! ## One decision -/

section
omit [Unicode]

/-- The only element. -/
def soleOf (l : List String) : String :=
  match l with
  | [d] => d
  | _ => "unknown"

theorem soleDecision_map (l : List String) : soleDecision (l.map .str) = .str (soleOf l) := by
  match l with
  | [] => rfl
  | [d] => rfl
  | d :: d' :: l => rfl

theorem soleOf_dedup_eq_unknown_iff {l : List String} (h : ∀ d ∈ l, d ≠ "unknown") :
    soleOf l.dedup = "unknown" ↔ l ≠ [] → ∀ d, ∃ x ∈ l, x ≠ d := by
  cases hl : l.dedup with
  | nil =>
    have hnil : l = [] := List.eq_nil_iff_forall_not_mem.mpr fun x hx =>
      List.not_mem_nil (hl ▸ List.mem_dedup.mpr hx)
    simp [soleOf, hnil]
  | cons d ds =>
    have hmem : ∀ x, x ∈ d :: ds ↔ x ∈ l := fun x => hl ▸ List.mem_dedup
    have hd : d ∈ l := (hmem d).mp (List.mem_cons_self ..)
    have hne : l ≠ [] := List.ne_nil_of_mem hd
    cases ds with
    | nil =>
      refine iff_of_false (h d hd) fun hall => ?_
      obtain ⟨x, hx, hxd⟩ := hall hne d
      exact hxd (List.mem_singleton.mp ((hmem x).mpr hx))
    | cons d' ds =>
      refine iff_of_true rfl fun _ other => ?_
      have hnodup := hl ▸ List.nodup_dedup l
      have hdd' : d ≠ d' := fun heq => (List.nodup_cons.mp hnodup).1 (heq ▸ List.mem_cons_self ..)
      by_cases hother : d = other
      · exact ⟨d', (hmem d').mp (by simp), fun heq => hdd' (hother.trans heq.symm)⟩
      · exact ⟨d, hd, hother⟩

/-- One reader wants a single element, the other one a single value in a part of the list. -/
theorem soleOf_eq_soleOf_dedup_iff {l part : List String} (hpart : part.Sublist l)
    (h : ∀ d ∈ l, d ≠ "unknown") : soleOf l = soleOf part.dedup ↔
      (l.length = 1 → part = l) ∧ (2 ≤ l.length → part ≠ [] → ∀ d, ∃ x ∈ part, x ≠ d) := by
  match l, hpart, h with
  | [], hpart, _ =>
    obtain rfl := List.sublist_nil.mp hpart
    simp [soleOf]
  | [d], hpart, h =>
    obtain rfl | rfl := List.sublist_singleton.mp hpart
    · simpa [soleOf] using h d (List.mem_singleton.mpr rfl)
    · simp [soleOf]
  | d :: d' :: l, hpart, h =>
    have hsub := soleOf_dedup_eq_unknown_iff fun x hx => h x (hpart.subset hx)
    rw [show soleOf (d :: d' :: l) = "unknown" from rfl, eq_comm, hsub]
    simp

end

/-! ## Agreement -/

instance (entry identity : Json) : Decidable (Matched entry identity) :=
  inferInstanceAs (Decidable ((entry.field "identity_id").toStr.toList = identName identity))

omit [Unicode] in
/-- The entries whose identifier equals the one of an identity. -/
def equalEntries (spec identity : Json) : List Json :=
  (entriesOf spec).filter fun e => (e.field "identity_id").pyEq (identity.field "id")

/-- The entries that the validator matches to an identity. -/
def matchedEntries (spec identity : Json) : List Json :=
  (entriesOf spec).filter fun e => Matched e identity

/-- Equal values that are printed alike. -/
def SameId (a b : Json) : Prop := a.pyEq b = true ∧ a.toStr = b.toStr

/-- The two readers expect the same of every identity, and both read an entry as one of the
identity that the validator matched it to. -/
structure Agree (spec : Json) : Prop where
  decided : ∀ i ∈ identitiesOf spec,
    ∃ d, assessedDecision spec i = .ok (.str d) ∧ coveredDecision spec i = .ok d
  read : ∀ e ∈ entriesOf spec, ∀ i ∈ identitiesOf spec, Matched e i →
    ∃ expected decisions, expectedDecisions spec = .ok expected ∧
      declaredDecisions spec = .ok decisions ∧
      expectation e ∈ (expected.filter fun p => p.1.pyEq (i.field "id")) ∧
      ((e.field "identity_id").toStr, (e.field "decision").toStr) ∈
        decisions.filter fun p => p.1 == (i.field "id").toStr

/-- Expectations that leave nothing to interpretation: there is a list of them or none at all, each
repeats the identifier that it is matched to, no other identity has an equal one, and no identity
has the same decision more than once and no other. -/
structure Plain (spec : Json) : Prop where
  expected : Expected spec
  hashable : ∀ i ∈ identitiesOf spec, (i.field "id").hashable = true
  same : ∀ e ∈ entriesOf spec, ∀ i ∈ identitiesOf spec, Matched e i →
    SameId (e.field "identity_id") (i.field "id")
  own : ∀ i ∈ identitiesOf spec, ∀ e, equalEntries spec i = [e] → Matched e i
  once : ∀ i ∈ identitiesOf spec, 2 ≤ (equalEntries spec i).length → matchedEntries spec i ≠ [] →
    ∀ d, ∃ e ∈ matchedEntries spec i, e.field "decision" ≠ d

variable {spec : Json}

/-- Texts that coverage compares and texts that the validator compares. -/
theorem toStr_eq_iff_matched (h : Declared spec)
    (hsame : ∀ e ∈ entriesOf spec, ∀ i ∈ identitiesOf spec, Matched e i →
      SameId (e.field "identity_id") (i.field "id")) {e i : Json} (he : e ∈ entriesOf spec)
    (hi : i ∈ identitiesOf spec) :
    (e.field "identity_id").toStr = (i.field "id").toStr ↔ Matched e i := by
  refine ⟨fun heq => ?_, fun hmatched => (hsame e he i hi hmatched).2⟩
  obtain ⟨j, hj, hmatched⟩ := h.matched e he
  have hij : (i.field "id").toStr = (j.field "id").toStr :=
    heq.symm.trans (hsame e he j hj hmatched).2
  have hname : identName i = identName j := by
    rw [(h.identified i hi).2.2, (h.identified j hj).2.2, hij]
  exact hmatched.trans hname.symm

theorem assessedDecision_eq (hobj : spec.isObj = true) (h : Declared spec)
    (hexpected : Expected spec)
    (hhash : ∀ e ∈ entriesOf spec, (e.field "identity_id").hashable = true) {i : Json}
    (hi : i ∈ identitiesOf spec) (hid : (i.field "id").hashable = true) :
    assessedDecision spec i =
      .ok (.str (soleOf ((equalEntries spec i).map fun e => (e.field "decision").toStr))) := by
  have hread := (expectedDecisions_eq_ok_iff hobj h _).mpr ⟨hexpected, hhash, rfl⟩
  have hfield : i.hasField "id" = true := hasField_of_field_ne_null fun hnull => by
    simpa [hnull, Json.truthy] using (h.identified i hi).2.1
  have hdecisions : decisionsFor ((entriesOf spec).map expectation) (i.field "id") =
      ((equalEntries spec i).map fun e => (e.field "decision").toStr).map .str := by
    rw [decisionsFor, List.filter_map, List.map_map, List.map_map, equalEntries]
    refine List.map_congr_left fun e he => ?_
    obtain ⟨d, -, hd⟩ := h.decided e (List.mem_filter.mp he).1
    simp [expectation, hd]
  simp only [assessedDecision, hread, bind, Except.bind, item_eq_field hfield, Json.asKey, hid,
    if_true, hdecisions, soleDecision_map]
  rfl

theorem coveredDecision_eq (h : Declared spec) (i : Json) :
    coveredDecision spec i = .ok (soleOf (((entriesOf spec).filter fun e =>
      (e.field "identity_id").toStr == (i.field "id").toStr).map fun e =>
        (e.field "decision").toStr).dedup) := by
  simp only [coveredDecision, declaredDecisions_eq h, bind, Except.bind, pure, Except.pure,
    decisionFor, List.filter_map, List.map_map]
  rfl

/-- The two decisions are one when both readers look at the same entries, or at several that do not
agree. -/
theorem decisions_eq_iff (h : Declared spec)
    (hsame : ∀ e ∈ entriesOf spec, ∀ i ∈ identitiesOf spec, Matched e i →
      SameId (e.field "identity_id") (i.field "id")) {i : Json} (hi : i ∈ identitiesOf spec) :
    soleOf ((equalEntries spec i).map fun e => (e.field "decision").toStr) =
        soleOf (((entriesOf spec).filter fun e =>
          (e.field "identity_id").toStr == (i.field "id").toStr).map fun e =>
            (e.field "decision").toStr).dedup ↔
      (∀ e, equalEntries spec i = [e] → Matched e i) ∧
        (2 ≤ (equalEntries spec i).length → matchedEntries spec i ≠ [] →
          ∀ d, ∃ e ∈ matchedEntries spec i, e.field "decision" ≠ d) := by
  have hfilter : ((entriesOf spec).filter fun e =>
      (e.field "identity_id").toStr == (i.field "id").toStr) = matchedEntries spec i := by
    refine List.filter_congr fun e he => ?_
    rw [Bool.eq_iff_iff, beq_iff_eq, decide_eq_true_eq]
    exact toStr_eq_iff_matched h hsame he hi
  have hsub : (matchedEntries spec i).Sublist (equalEntries spec i) := by
    have hinner : matchedEntries spec i =
        (equalEntries spec i).filter fun e => Matched e i := by
      rw [equalEntries, List.filter_filter]
      refine List.filter_congr fun e he => ?_
      rw [Bool.eq_iff_iff, Bool.and_eq_true, decide_eq_true_eq]
      exact ⟨fun hmatched => ⟨hmatched, (hsame e he i hi hmatched).1⟩, And.left⟩
    exact hinner ▸ List.filter_sublist
  have hdecision : ∀ e ∈ entriesOf spec, e.field "decision" = .str (e.field "decision").toStr ∧
      (e.field "decision").toStr ≠ "unknown" := fun e he => by
    obtain ⟨d, hd, hdecision⟩ := h.decided e he
    rw [hdecision, Json.toStr_str]
    refine ⟨rfl, ?_⟩
    rintro rfl
    simp at hd
  rw [hfilter, soleOf_eq_soleOf_dedup_iff (hsub.map _) fun d hd => ?_]
  · rw [List.length_map]
    refine and_congr ⟨fun hown e he => ?_, fun hown hlen => ?_⟩
      ⟨fun honce hlen hne d => ?_, fun honce hlen hne d => ?_⟩
    · have hlen := congrArg List.length (hown (by rw [he, List.length_singleton]))
      rw [List.length_map, List.length_map] at hlen
      have hmem : e ∈ matchedEntries spec i := by
        rw [hsub.eq_of_length hlen, he]
        exact List.mem_singleton.mpr rfl
      exact of_decide_eq_true (List.mem_filter.mp hmem).2
    · obtain ⟨e, he⟩ := List.length_eq_one_iff.mp hlen
      have hmem : e ∈ equalEntries spec i := he ▸ List.mem_singleton.mpr rfl
      have hmatched : e ∈ matchedEntries spec i :=
        List.mem_filter.mpr ⟨(List.mem_filter.mp hmem).1, decide_eq_true (hown e he)⟩
      obtain hnil | hone := List.sublist_singleton.mp (he ▸ hsub)
      · exact absurd (hnil ▸ hmatched) List.not_mem_nil
      · rw [hone, he]
    · obtain ⟨x, hx, hxd⟩ := honce hlen (fun hnil => hne (List.map_eq_nil_iff.mp hnil)) d.toStr
      obtain ⟨e, he, rfl⟩ := List.mem_map.mp hx
      exact ⟨e, he, fun heq => hxd (congrArg Json.toStr heq)⟩
    · obtain ⟨e, he, hed⟩ := honce hlen (fun hnil => hne (List.map_eq_nil_iff.mpr hnil)) (.str d)
      refine ⟨_, List.mem_map.mpr ⟨e, he, rfl⟩, fun heq => hed ?_⟩
      rw [(hdecision e (List.mem_filter.mp he).1).1, heq]
  · obtain ⟨e, he, rfl⟩ := List.mem_map.mp hd
    exact (hdecision e (List.mem_filter.mp he).1).2

omit [Unicode] in
theorem hashable_of_pyEq {a b : Json} (h : a.pyEq b = true) (hb : b.hashable = true) :
    a.hashable = true := by
  cases a with
  | arr xs => cases b <;> simp_all [Json.pyEq, Json.number?, Json.hashable]
  | obj fs => cases b <;> simp_all [Json.pyEq, Json.number?, Json.hashable]
  | _ => rfl

/-- On an accepted case the readers agree exactly when its expectations are plain. -/
theorem agree_iff_plain {s : Json} (haccepted : validateSpec spec = .ok s) :
    Agree spec ↔ Plain spec := by
  have h := declared_of_accepted haccepted
  have hobj : spec.isObj = true := by
    have hidentities := h.identities
    cases spec with
    | obj fs => rfl
    | _ => cases hidentities
  constructor
  · intro hagree
    obtain ⟨i₀, hi₀⟩ := List.exists_mem_of_ne_nil _ h.nonempty
    obtain ⟨d₀, hassessed, -⟩ := hagree.decided i₀ hi₀
    obtain ⟨expected, hread, -⟩ := bind_eq_ok hassessed
    obtain ⟨hexpected, hhash, -⟩ := (expectedDecisions_eq_ok_iff hobj h expected).mp hread
    have hsame : ∀ e ∈ entriesOf spec, ∀ i ∈ identitiesOf spec, Matched e i →
        SameId (e.field "identity_id") (i.field "id") := fun e he i hi hmatched => by
      obtain ⟨_, _, -, -, hequal, hprinted⟩ := hagree.read e he i hi hmatched
      exact ⟨(List.mem_filter.mp hequal).2, beq_iff_eq.mp (List.mem_filter.mp hprinted).2⟩
    have hhashable : ∀ i ∈ identitiesOf spec, (i.field "id").hashable = true := fun i hi => by
      obtain ⟨d, hassessed, -⟩ := hagree.decided i hi
      obtain ⟨_, -, hassessed⟩ := bind_eq_ok hassessed
      obtain ⟨id, hid, hassessed⟩ := bind_eq_ok hassessed
      obtain ⟨key, hkey, -⟩ := bind_eq_ok hassessed
      have hfield : i.hasField "id" = true := hasField_of_field_ne_null fun hnull => by
        simpa [hnull, Json.truthy] using (h.identified i hi).2.1
      rw [item_eq_field hfield] at hid
      obtain rfl := Except.ok.inj hid
      unfold Json.asKey at hkey
      split at hkey
      · assumption
      · cases hkey
    have hdecisions := fun i hi => (decisions_eq_iff h hsame hi).mp (by
      obtain ⟨d, hassessed, hcovered⟩ := hagree.decided i hi
      rw [assessedDecision_eq hobj h hexpected hhash hi (hhashable i hi)] at hassessed
      rw [coveredDecision_eq h i] at hcovered
      exact (Json.str.inj (Except.ok.inj hassessed)).trans (Except.ok.inj hcovered).symm)
    exact ⟨hexpected, hhashable, hsame, fun i hi => (hdecisions i hi).1,
      fun i hi => (hdecisions i hi).2⟩
  · intro hplain
    have hhash : ∀ e ∈ entriesOf spec, (e.field "identity_id").hashable = true := fun e he => by
      obtain ⟨i, hi, hmatched⟩ := h.matched e he
      exact hashable_of_pyEq (hplain.same e he i hi hmatched).1 (hplain.hashable i hi)
    refine ⟨fun i hi => ?_, fun e he i hi hmatched => ?_⟩
    · refine ⟨_, assessedDecision_eq hobj h hplain.expected hhash hi (hplain.hashable i hi), ?_⟩
      rw [coveredDecision_eq h i]
      exact congrArg _ ((decisions_eq_iff h hplain.same hi).mpr
        ⟨hplain.own i hi, hplain.once i hi⟩).symm
    · obtain ⟨hequal, hprinted⟩ := hplain.same e he i hi hmatched
      refine ⟨_, _, (expectedDecisions_eq_ok_iff hobj h _).mpr ⟨hplain.expected, hhash, rfl⟩,
        declaredDecisions_eq h, ?_, ?_⟩
      · exact List.mem_filter.mpr ⟨List.mem_map_of_mem he, hequal⟩
      · exact List.mem_filter.mpr ⟨List.mem_map_of_mem (f := fun e : Json =>
          ((e.field "identity_id").toStr, (e.field "decision").toStr)) he, beq_iff_eq.mpr hprinted⟩

omit [Unicode] in
/-- An expectation about an identity. -/
def exampleExpectation (id : Json) (decision : String) : Json :=
  .obj [("identity_id", id), ("decision", .str decision)]

omit [Unicode] in
/-- A case with these expectations about one identity. -/
def exampleExpectations (expectations : List Json) : Json :=
  exampleCase [exampleIdentity (.str "alice")] [("expected_access", .arr expectations)]

omit [Unicode] in
theorem agree_iff_plain_example :
    @Agree Unicode.ascii (exampleExpectations [exampleExpectation (.str "alice") "deny"]) := by
  let _ := Unicode.ascii
  let entry := exampleExpectation (.str "alice") "deny"
  have haccepted : validateSpec (exampleExpectations [entry]) =
      .ok (exampleExpectations [entry]) := by decide +kernel
  have hequal : equalEntries (exampleExpectations [entry])
      (exampleIdentity (.str "alice")) = [entry] := by decide +kernel
  have hlist : identitiesOf (exampleExpectations [entry]) = [exampleIdentity (.str "alice")] := rfl
  have hentries : entriesOf (exampleExpectations [entry]) = [entry] := rfl
  refine (agree_iff_plain haccepted).mpr ⟨fun _ => id, ?_, ?_, ?_, ?_⟩
  · simp only [hlist, List.mem_singleton, forall_eq]
    rfl
  · simp only [hlist, hentries, List.mem_singleton, forall_eq]
    exact fun _ => ⟨by decide +kernel, rfl⟩
  · simp only [hlist, List.mem_singleton, forall_eq, hequal, List.cons.injEq, and_true]
    rintro _ rfl
    decide +kernel
  · simp only [hlist, List.mem_singleton, forall_eq, hequal, List.length_singleton]
    exact fun hlen => absurd hlen (by decide)

omit [Unicode] in
/-- A decision that is declared twice is none for an assessment. -/
theorem agree_counterexample :
    ¬ ∀ spec, @validateSpec Unicode.ascii spec = .ok spec → @Agree Unicode.ascii spec := by
  let _ := Unicode.ascii
  intro hall
  let entry := exampleExpectation (.str "alice") "deny"
  let spec := exampleExpectations [entry, entry]
  have hagree := hall spec (by decide +kernel)
  obtain ⟨d, hassessed, hcovered⟩ := hagree.decided (exampleIdentity (.str "alice"))
    (List.mem_singleton.mpr rfl)
  have hunknown : assessedDecision spec (exampleIdentity (.str "alice")) =
      .ok (.str "unknown") := by decide +kernel
  have hdeny : coveredDecision spec (exampleIdentity (.str "alice")) = .ok "deny" := by
    decide +kernel
  rw [hunknown] at hassessed
  rw [hdeny, ← Json.str.inj (Except.ok.inj hassessed)] at hcovered
  exact absurd (Except.ok.inj hcovered) (by decide)

end VardrMap.TestCases
