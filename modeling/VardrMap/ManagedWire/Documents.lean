import VardrMap.Lib.Failures
import VardrMap.Lib.JsonText.RoundTrip
import VardrMap.Lib.Utf8
import VardrMap.ManagedWire

/-!
# Documents on the wire

`parse` decodes a received document: bounded bytes of strict UTF-8, no key twice in an
object, no number beyond the finite ones, bounded nesting. `canonical` writes a document for
signing, and two more functions hash documents elsewhere. `canonical_parse` says that the
canonical bytes are read back to the same document, that they determine it, and that all
three functions hash them.
-/
namespace VardrMap
namespace Wire
open Lib

namespace Document

/-! ## The source -/

/-- `pairs`: the dictionary of the pairs, unless a key comes twice. -/
def pairs (result : List (Points × Doc)) : List (Points × Doc) → Option (List (Points × Doc))
  | [] => some result
  | (key, value) :: items =>
    if result.any fun p => p.1 == key then none else pairs (result ++ [(key, value)]) items

-- `repr(float(text))` of a number with a fraction or an exponent, unless it is infinite.
variable (readFloat : Text → Option Text)

/-- The hooks of `parse`. -/
def hooks : Doc.Reader where
  float t := (readFloat t).map .float
  constant _ := none
  pairs items := (pairs [] items).map .obj

mutual

/-- `depth`. -/
def depth : Doc → (level : ℕ) → Except Refusal Unit
  | .arr xs, level => do
    require (level ≤ 32) "document_depth"
    depthItems xs (level + 1)
  | .obj fs, level => do
    require (level ≤ 32) "document_depth"
    depthFields fs (level + 1)
  | _, level => require (level ≤ 32) "document_depth"

def depthItems : List Doc → (level : ℕ) → Except Refusal Unit
  | [], _ => .ok ()
  | x :: xs, level => do
    depth x level
    depthItems xs level

def depthFields : List (Points × Doc) → (level : ℕ) → Except Refusal Unit
  | [], _ => .ok ()
  | (_, x) :: fs, level => do
    depth x level
    depthFields fs level

end

/-- The decoding in `parse`; whatever it raises is reported as one refusal. -/
def decoded (data : List UInt8) : Except Refusal Doc :=
  match Utf8.decode? data with
  | none => .error (.wire "malformed_document")
  | some text =>
    match Doc.loads (hooks readFloat) text with
    | .ok value => .ok value
    | .error _ => .error (.wire "malformed_document")

/-- `parse`. -/
def parse (data : List UInt8) (maximum : ℕ) : Except Refusal Doc := do
  require (0 < data.length && data.length ≤ maximum) "document_size"
  let value ← decoded readFloat data
  depth value 0
  return value

/-- `canonical`. -/
def canonical (value : Doc) : Except Refusal (List UInt8) :=
  match value.dumps false with
  | some text => .ok (Utf8.encode text)
  | none => .error (.wire "invalid_document")

/-- `hashlib.sha256(data).hexdigest()`. -/
def sha256 (data : List UInt8) : Text := Sha256.hexdigest (data.map UInt8.toNat)

/-- `digest`. -/
def digest (value : Doc) : Except Refusal Text := (canonical value).map sha256

/-- `nm1_authorization._digest`. -/
def nm1Digest (value : Doc) : Except Exn Text :=
  match value.dumps false with
  | some text => .ok (sha256 (Utf8.encode text))
  | none => .error .valueError

/-- `assessments.case_hash`, which allows `NaN`. -/
def caseHash (spec : Doc) : Except Exn Text :=
  match spec.dumps true with
  | some text => .ok (sha256 (Utf8.encode text))
  | none => .error .valueError

/-- The document of the bytes as it is written, every pair of every object kept. -/
def tree (data : List UInt8) : Option Doc := do
  let text ← Utf8.decode? data
  (Doc.loads (.standard readFloat id) text).toOption

/-! ## What is decoded -/

variable {readFloat}

/-- The dictionary is made of the pairs as they come, when no key comes twice. -/
theorem pairs_eq_some_iff {result items r : List (Points × Doc)}
    (h : (result.map Prod.fst).Nodup) : pairs result items = some r ↔
      ((result ++ items).map Prod.fst).Nodup ∧ r = result ++ items := by
  induction items generalizing result with
  | nil => simp [pairs, h, eq_comm]
  | cons p items ih =>
    obtain ⟨key, value⟩ := p
    rw [pairs]
    by_cases hkey : key ∈ result.map Prod.fst
    · have hany : (result.any fun p => p.1 == key) = true := by
        obtain ⟨p, hp, rfl⟩ := List.mem_map.mp hkey
        exact List.any_eq_true.mpr ⟨p, hp, beq_self_eq_true _⟩
      have hdup : ¬ ((result ++ (key, value) :: items).map Prod.fst).Nodup := by
        rw [List.map_append, List.map_cons, List.nodup_append]
        exact fun hnodup => hnodup.2.2 key hkey key List.mem_cons_self rfl
      rw [hany, if_pos rfl]
      exact ⟨(fun hnone => by cases hnone), fun hsome => (hdup hsome.1).elim⟩
    · have hany : (result.any fun p => p.1 == key) = false := by
        rw [List.any_eq_false]
        exact fun p hp heq => hkey (List.mem_map.mpr ⟨p, hp, eq_of_beq heq⟩)
      have hnodup : ((result ++ [(key, value)]).map Prod.fst).Nodup := by
        rw [List.map_append, List.map_singleton, List.nodup_append]
        refine ⟨h, List.nodup_singleton _, fun a ha b hb heq => ?_⟩
        rw [List.mem_singleton] at hb
        rw [heq, hb] at ha
        exact hkey ha
      rw [hany, if_neg (by simp), ih hnodup, List.append_assoc, List.singleton_append]

theorem pairs_nil_eq_some_iff {items r : List (Points × Doc)} :
    pairs [] items = some r ↔ (items.map Prod.fst).Nodup ∧ r = items := by
  have hnil : (([] : List (Points × Doc)).map Prod.fst).Nodup := List.nodup_nil
  rw [pairs_eq_some_iff hnil, List.nil_append]

/-- A decoded document is well formed, and is the tree that is written. -/
theorem narrows : Doc.Narrows (hooks readFloat) (.standard readFloat id)
    (Doc.WellFormed fun _ => True) where
  null := .null
  bool := .bool
  int _ h := .int h
  str _ h := .str h
  arr _ h := .arr h
  float t x h := by
    obtain ⟨r, hr, rfl⟩ := Option.map_eq_some_iff.mp h
    refine ⟨.float trivial, ?_⟩
    simp only [Doc.Reader.standard, hr]
  constant t x h := by cases h
  pairs fs x h hx := by
    obtain ⟨r, hr, rfl⟩ := Option.map_eq_some_iff.mp hx
    obtain ⟨hnodup, rfl⟩ := (pairs_nil_eq_some_iff).mp hr
    exact ⟨.obj hnodup (fun p hp => (h p hp).1) fun p hp => (h p hp).2, rfl⟩

theorem hooks_pairs (fs : List (Points × Doc)) (h : (fs.map Prod.fst).Nodup) :
    (hooks readFloat).pairs fs = some (.obj fs) := by
  have hpairs : pairs [] fs = some fs := pairs_nil_eq_some_iff.mpr ⟨h, rfl⟩
  exact Option.map_eq_some_iff.mpr ⟨fs, hpairs, rfl⟩

mutual

/-- The bound on the levels holds when it holds of the deepest part. -/
theorem depth_eq_ok : ∀ (d : Doc) (level : ℕ),
    depth d level = .ok () ↔ level + d.nesting ≤ 32
  | .arr xs, level => by
    simp only [depth, bind_eq_ok_iff, require, ensure_eq_ok_iff, decide_eq_true_eq, Doc.nesting,
      exists_const, depthItems_eq_ok]
  | .obj fs, level => by
    simp only [depth, bind_eq_ok_iff, require, ensure_eq_ok_iff, decide_eq_true_eq, Doc.nesting,
      exists_const, depthFields_eq_ok]
  | .null, _ | .bool _, _ | .int _, _ | .float _, _ | .constant _, _ | .str _, _ => by
    simp only [depth, require, ensure_eq_ok_iff, decide_eq_true_eq, Doc.nesting, Nat.add_zero]

theorem depthItems_eq_ok : ∀ (xs : List Doc) (level : ℕ),
    level ≤ 32 ∧ depthItems xs (level + 1) = .ok () ↔ level + Doc.nestingItems xs ≤ 32
  | [], level => by simp [depthItems, Doc.nestingItems]
  | x :: xs, level => by
    have hx := depth_eq_ok x (level + 1)
    have hxs := depthItems_eq_ok xs level
    simp only [depthItems, bind_eq_ok_iff, exists_const, Doc.nestingItems, hx]
    rw [and_left_comm, hxs]
    omega

theorem depthFields_eq_ok : ∀ (fs : List (Points × Doc)) (level : ℕ),
    level ≤ 32 ∧ depthFields fs (level + 1) = .ok () ↔ level + Doc.nestingFields fs ≤ 32
  | [], level => by simp [depthFields, Doc.nestingFields]
  | (_, x) :: fs, level => by
    have hx := depth_eq_ok x (level + 1)
    have hfs := depthFields_eq_ok fs level
    simp only [depthFields, bind_eq_ok_iff, exists_const, Doc.nestingFields, hx]
    rw [and_left_comm, hfs]
    omega

end

/-- Everything here is refused with a reason. -/
def Named (e : Refusal) : Prop := ∃ reason, e = .wire reason

theorem clean_require (condition : Bool) (reason : String) :
    Clean Named (require condition reason) := by
  unfold require ensure
  split_ifs
  · exact Failing.ok ()
  · exact Failing.error ⟨reason, rfl⟩

mutual

theorem clean_depth : ∀ (d : Doc) (level : ℕ), Clean Named (depth d level)
  | .arr xs, level => (clean_require _ _).bind fun _ _ => clean_depthItems xs (level + 1)
  | .obj fs, level => (clean_require _ _).bind fun _ _ => clean_depthFields fs (level + 1)
  | .null, _ | .bool _, _ | .int _, _ | .float _, _ | .constant _, _ | .str _, _ =>
    clean_require _ _

theorem clean_depthItems : ∀ (xs : List Doc) (level : ℕ), Clean Named (depthItems xs level)
  | [], _ => Failing.ok ()
  | x :: xs, level => (clean_depth x level).bind fun _ _ => clean_depthItems xs level

theorem clean_depthFields :
    ∀ (fs : List (Points × Doc)) (level : ℕ), Clean Named (depthFields fs level)
  | [], _ => Failing.ok ()
  | (_, x) :: fs, level => (clean_depth x level).bind fun _ _ => clean_depthFields fs level

end

theorem clean_decoded (data : List UInt8) : Clean Named (decoded readFloat data) := by
  unfold decoded
  cases Utf8.decode? data with
  | none => exact Failing.error ⟨_, rfl⟩
  | some text =>
    cases hloads : Doc.loads (hooks readFloat) text with
    | ok value =>
      simp only [hloads]
      exact Failing.ok value
    | error e =>
      simp only [hloads]
      exact Failing.error ⟨_, rfl⟩

theorem clean_parse (data : List UInt8) (maximum : ℕ) :
    Clean Named (parse readFloat data maximum) :=
  (clean_require _ _).bind fun _ _ => (clean_decoded data).bind fun value _ =>
    (clean_depth value 0).bind fun _ _ => Failing.ok value

theorem decoded_eq_ok {data : List UInt8} {value : Doc} :
    decoded readFloat data = .ok value ↔
      ∃ text, Utf8.decode? data = some text ∧ Doc.loads (hooks readFloat) text = .ok value := by
  unfold decoded
  cases hdecode : Utf8.decode? data with
  | none => simp
  | some text =>
    cases hloads : Doc.loads (hooks readFloat) text with
    | error e => simp [hloads]
    | ok v => simp [hloads]

/-- What `parse` accepts: bytes of a bounded number that are decoded, and few levels. -/
theorem parse_eq_ok {data : List UInt8} {maximum : ℕ} {value : Doc} :
    parse readFloat data maximum = .ok value ↔
      0 < data.length ∧ data.length ≤ maximum ∧ decoded readFloat data = .ok value ∧
        value.nesting ≤ 32 := by
  simp only [parse, bind_eq_ok_iff, require, ensure_eq_ok_iff, Bool.and_eq_true,
    decide_eq_true_eq, exists_const]
  constructor
  · rintro ⟨⟨hpos, hle⟩, v, hv, ⟨⟩, hdepth, ⟨⟩⟩
    have hlevels := (depth_eq_ok value 0).mp hdepth
    exact ⟨hpos, hle, hv, by omega⟩
  · rintro ⟨hpos, hle, hv, hlevels⟩
    exact ⟨⟨hpos, hle⟩, value, hv, (), (depth_eq_ok value 0).mpr (by omega), rfl⟩

theorem decoded_sound {data : List UInt8} {value : Doc} (h : decoded readFloat data = .ok value) :
    value.WellFormed (fun _ => True) ∧ tree readFloat data = some value := by
  obtain ⟨text, htext, hloads⟩ := decoded_eq_ok.mp h
  obtain ⟨hwell, htree⟩ := narrows.loads hloads
  refine ⟨hwell, ?_⟩
  rw [tree, htext, Option.bind_eq_bind, Option.bind_some, htree]
  rfl

/-! ## What is written -/

theorem canonical_eq {floats : Text → Prop} {value : Doc} (h : value.WellFormed floats) :
    canonical value = .ok (Utf8.encode value.sorted.plain) := by
  rw [canonical, Doc.dumps, if_pos (h.writable false)]

theorem encode_inj {s t : Text} (h : Utf8.encode s = Utf8.encode t) : s = t := by
  have hdecode := Utf8.decode?_encode s
  rw [h, Utf8.decode?_encode, Option.some.injEq] at hdecode
  exact hdecode.symm

/-- The canonical bytes are decoded to the sorted document. -/
theorem decoded_canonical {value : Doc} (h : value.WellFormed fun _ => False) :
    decoded readFloat (Utf8.encode value.sorted.plain) = .ok value.sorted :=
  decoded_eq_ok.mpr ⟨_, Utf8.decode?_encode _, Doc.loads_plain hooks_pairs h.sorted⟩

/-- The canonical bytes determine the document. -/
theorem canonical_eq_iff {value value' : Doc} (h : value.WellFormed fun _ => False)
    (h' : value'.WellFormed fun _ => False) :
    canonical value = canonical value' ↔ value.same value' = true := by
  rw [canonical_eq h, canonical_eq h', Except.ok.injEq, Doc.same_iff h h']
  refine ⟨fun heq => ?_, fun heq => by rw [heq]⟩
  have hdecoded : decoded (fun _ => none) (Utf8.encode value.sorted.plain) = .ok value.sorted :=
    decoded_canonical h
  rw [heq, decoded_canonical h', Except.ok.injEq] at hdecoded
  exact hdecoded.symm

/-- A document without fractional numbers that `parse` produces is read back from its
canonical bytes, up to the order of keys; its canonical bytes are those of exactly the same
documents; no document with a key twice in one object or nested deeper than 32 levels is
accepted; and the three digests are those of the canonical bytes. -/
theorem canonical_parse (readFloat : Text → Option Text) :
    (∀ data maximum value, parse readFloat data maximum = .ok value →
      value.fractionless = true → ∃ bytes, canonical value = .ok bytes ∧
        ∀ maximum', bytes.length ≤ maximum' →
          ∃ value', parse readFloat bytes maximum' = .ok value' ∧ value.same value' = true) ∧
    (∀ data maximum value data' maximum' value', parse readFloat data maximum = .ok value →
      parse readFloat data' maximum' = .ok value' → value.fractionless = true →
        value'.fractionless = true →
          (canonical value = canonical value' ↔ value.same value' = true)) ∧
    (∀ data maximum document, tree readFloat data = some document →
      (document.duplicated = true ∨ 32 < document.nesting) →
        ∃ reason, parse readFloat data maximum = .error (.wire reason)) ∧
    ∀ data maximum value, parse readFloat data maximum = .ok value →
      ∃ bytes, canonical value = .ok bytes ∧ digest value = .ok (sha256 bytes) ∧
        nm1Digest value = .ok (sha256 bytes) ∧ caseHash value = .ok (sha256 bytes) := by
  refine ⟨fun data maximum value hparse hfraction => ?_,
    fun data maximum value data' maximum' value' hparse hparse' hfraction hfraction' => ?_,
    fun data maximum document htree hbad => ?_, fun data maximum value hparse => ?_⟩
  · obtain ⟨-, -, hdecoded, hlevels⟩ := parse_eq_ok.mp hparse
    have hwell := (decoded_sound hdecoded).1.fractionless hfraction
    refine ⟨_, canonical_eq hwell, fun maximum' hsize => ⟨value.sorted, ?_, hwell.same_sorted⟩⟩
    have hpos : 0 < (Utf8.encode value.sorted.plain).length := by
      obtain ⟨c, t, htext, -⟩ := Doc.starts_plain hwell.sorted
      rw [htext, Utf8.encode, List.flatMap_cons, List.length_append]
      exact Nat.add_pos_left (List.length_pos_iff.mpr String.utf8EncodeChar_ne_nil) _
    exact parse_eq_ok.mpr ⟨hpos, hsize, decoded_canonical hwell,
      (hwell.nesting_sorted_le 32).mpr hlevels⟩
  · obtain ⟨-, -, hdecoded, -⟩ := parse_eq_ok.mp hparse
    obtain ⟨-, -, hdecoded', -⟩ := parse_eq_ok.mp hparse'
    exact canonical_eq_iff ((decoded_sound hdecoded).1.fractionless hfraction)
      ((decoded_sound hdecoded').1.fractionless hfraction')
  · cases hparse : parse readFloat data maximum with
    | ok value =>
      obtain ⟨-, -, hdecoded, hlevels⟩ := parse_eq_ok.mp hparse
      obtain ⟨hwell, htree'⟩ := decoded_sound hdecoded
      rw [htree, Option.some.injEq] at htree'
      subst htree'
      rcases hbad with hbad | hbad
      · rw [hwell.not_duplicated] at hbad
        cases hbad
      · omega
    | error e =>
      obtain ⟨reason, rfl⟩ | h := (clean_parse data maximum).sound e hparse
      · exact ⟨reason, rfl⟩
      · cases h
  · obtain ⟨-, -, hdecoded, -⟩ := parse_eq_ok.mp hparse
    have hwell := (decoded_sound hdecoded).1
    refine ⟨_, canonical_eq hwell, ?_, ?_, ?_⟩
    · rw [digest, canonical_eq hwell]
      rfl
    · rw [nm1Digest, Doc.dumps, if_pos (hwell.writable false)]
    · rw [caseHash, Doc.dumps, if_pos (hwell.writable true)]

end Document
end Wire
end VardrMap
