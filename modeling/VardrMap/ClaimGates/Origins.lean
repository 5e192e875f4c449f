import Mathlib.Data.Set.Card
import VardrMap.Lib.Coupled
import VardrMap.Lib.Decimal
import VardrMap.Lib.IpText
import VardrMap.ClaimGates
import VardrMap.ManagedWire

/-!
# What a claim is charged for

The target budget charges a case for the distinct origins of the requests that it sends. An
origin is a scheme, a host and an effective port; its text names it, and a binding lists the
texts of the origins of all requests, each once. `binding_charges_origins` says so, and that
the list depends on nothing but the set of the requests' origins.
-/
namespace VardrMap
open Lib

/-! ## Origins -/

/-- A host name in lower case, or the eight groups of a version 6 address. -/
inductive HostName where
  | name (host : Text)
  | v6 (groups : List ℕ)
  deriving DecidableEq

structure Origin where
  scheme : Text
  host : HostName
  port : ℕ
  deriving DecidableEq

def HostName.text : HostName → Text
  | name host => host
  | v6 groups => Ip.textOf groups

/-- `f"{scheme}://{host}:{port}"`, an address in brackets. -/
def Origin.text (o : Origin) : String := originText o.scheme o.host.text o.port

/-- What the reader of URLs gives. -/
structure Origin.Proper (o : Origin) : Prop where
  scheme : o.scheme = "http".toList ∨ o.scheme = "https".toList
  host : match o.host with
    | .name host => ':' ∉ host
    | .v6 groups => groups.length = 8

theorem bracketed_text {o : Origin} (h : o.Proper) : bracketed o.host.text =
    match o.host with
    | .name host => host
    | .v6 groups => '[' :: Ip.textOf groups ++ [']'] := by
  have hhost := h.host
  unfold bracketed HostName.text
  cases hh : o.host with
  | name host =>
    rw [hh] at hhost
    simpa using fun hmem => absurd hmem hhost
  | v6 groups =>
    rw [hh] at hhost
    dsimp only at hhost
    have hcolon : ':' ∈ Ip.textOf groups := Ip.colon_mem_textOf (by omega)
    simp [hcolon]

/-- The text of an origin names it. -/
theorem Origin.text_inj {o o' : Origin} (h : o.Proper) (h' : o'.Proper)
    (htext : o.text = o'.text) : o = o' := by
  have hlist := String.ofList_injective htext
  have hbefore : ∀ s : Text, s = "http".toList ∨ s = "https".toList → ':' ∉ s := by
    rintro s (rfl | rfl) <;> decide
  have hkey : ∀ (s t : Text) (n : ℕ), s ++ "://".toList ++ t ++ ':' :: (toString n).toList =
      s ++ ':' :: (('/' :: '/' :: t) ++ ':' :: (toString n).toList) := by
    intro s t n
    simp
  rw [hkey, hkey] at hlist
  have hscheme : o.scheme = o'.scheme := by
    have hcut := congrArg (Text.before ':') hlist
    rwa [Text.before_append_cons (hbefore _ h.scheme),
      Text.before_append_cons (hbefore _ h'.scheme)] at hcut
  rw [hscheme] at hlist
  have htail := (List.cons.inj (List.append_cancel_left hlist)).2
  have hport : o.port = o'.port := by
    have hcut := congrArg (Text.afterLast ':') htail
    rw [Text.afterLast_append_cons _ (notMem_toString (by decide) _),
      Text.afterLast_append_cons _ (notMem_toString (by decide) _)] at hcut
    exact toString_inj hcut
  rw [hport] at htail
  have hslashes := List.append_cancel_right htail
  have hbracketed : bracketed o.host.text = bracketed o'.host.text := by
    simpa only [List.cons.injEq, true_and] using hslashes
  have hhost : o.host = o'.host := by
    rw [bracketed_text h, bracketed_text h'] at hbracketed
    have hproper := h.host
    have hproper' := h'.host
    cases hh : o.host with
    | name host =>
      cases hh' : o'.host with
      | name host' =>
        rw [hh, hh'] at hbracketed
        exact congrArg HostName.name hbracketed
      | v6 groups' =>
        rw [hh, hh'] at hbracketed
        rw [hh] at hproper
        rw [hh'] at hproper'
        dsimp only at hbracketed hproper hproper'
        have hcolon : ':' ∈ Ip.textOf groups' := Ip.colon_mem_textOf (by omega)
        exact absurd (by rw [hbracketed]; simp [hcolon]) hproper
    | v6 groups =>
      rw [hh] at hproper
      dsimp only at hproper
      cases hh' : o'.host with
      | name host' =>
        rw [hh, hh'] at hbracketed
        rw [hh'] at hproper'
        dsimp only at hbracketed hproper'
        have hcolon : ':' ∈ Ip.textOf groups := Ip.colon_mem_textOf (by omega)
        exact absurd (by rw [← hbracketed]; simp [hcolon]) hproper'
      | v6 groups' =>
        rw [hh, hh'] at hbracketed
        rw [hh'] at hproper'
        dsimp only at hbracketed hproper'
        have htexts : Ip.textOf groups = Ip.textOf groups' := by simpa using hbracketed
        have hne : groups ≠ [] := by
          rintro rfl
          simp at hproper
        exact congrArg HostName.v6 (Ip.textOf_inj hne (by omega) htexts)
  cases o
  cases o'
  simp only at hscheme hport hhost
  rw [hscheme, hport, hhost]

variable [Unicode]

/-- The origin that a URL names. -/
def urlOrigin (raw : Json) : Except Exn Origin := do
  let (scheme, host, port) ← preflightOrigin raw
  if !host.all isAscii || host.getLast? == some '.' || host.contains '%' then .error .valueError
  if host.contains ':' then
    let some n := Ip.v6Value host | .error .valueError
    return ⟨scheme, .v6 (Ip.groupsOf n), port⟩
  return ⟨scheme, .name host, port⟩

/-- The origin of a request. -/
def requestOrigin (request : Json) : Except Exn Origin := do
  urlOrigin (← request.item "url")

example : @requestOrigin Unicode.ascii (.obj [("url", .str "HTTPS://[::1]/a")]) =
    .ok ⟨"https".toList, .v6 [0, 0, 0, 0, 0, 0, 0, 1], 443⟩ := by decide +kernel

/-- A request is represented by the text of its origin. -/
theorem representedOrigin_eq (request : Json) :
    representedOrigin request = (requestOrigin request).map Origin.text := by
  unfold representedOrigin requestOrigin urlOrigin
  cases request.item "url" with
  | error e => rfl
  | ok url =>
    simp only [bind, Except.bind]
    cases preflightOrigin url with
    | error e => rfl
    | ok p =>
      obtain ⟨scheme, host, port⟩ := p
      dsimp only
      split
      · rfl
      split
      · cases Ip.v6Value host with
        | none => rfl
        | some n => rfl
      · rfl

theorem preflightOrigin_scheme {raw : Json} {scheme host : Text} {port : ℕ}
    (h : preflightOrigin raw = .ok (scheme, host, port)) :
    scheme = "http".toList ∨ scheme = "https".toList := by
  cases raw with
  | str s =>
    simp only [preflightOrigin] at h
    by_cases hlong : 2000 < s.utf8ByteSize
    · rw [if_pos hlong] at h
      cases h
    rw [if_neg hlong] at h
    obtain ⟨parsed, -, h⟩ := bind_eq_ok h
    cases hhost : parsed.hostname with
    | none =>
      rw [hhost] at h
      cases h
    | some name =>
      rw [hhost] at h
      dsimp only at h
      split at h
      · cases h
      rename_i hchecks
      obtain ⟨port', -, h⟩ := bind_eq_ok h
      split at h
      · cases h
      simp only [Bool.or_eq_true, not_or, Bool.not_eq_true, Bool.not_eq_false', beq_iff_eq]
        at hchecks
      obtain ⟨rfl, -⟩ := Prod.mk.inj (Except.ok.inj h)
      exact hchecks.1.1.1
  | _ => cases h

theorem requestOrigin_proper {request : Json} {o : Origin} (h : requestOrigin request = .ok o) :
    o.Proper := by
  unfold requestOrigin urlOrigin at h
  obtain ⟨url, -, h⟩ := bind_eq_ok h
  obtain ⟨⟨scheme, host, port⟩, hurl, h⟩ := bind_eq_ok h
  have hscheme := preflightOrigin_scheme hurl
  dsimp only at h
  split at h
  · cases h
  split at h
  · cases hv : Ip.v6Value host with
    | none => simp [hv] at h
    | some n =>
      rw [hv] at h
      obtain rfl := Except.ok.inj h
      exact ⟨hscheme, by simp [Ip.groupsOf]⟩
  · rename_i hcolon
    obtain rfl := Except.ok.inj h
    exact ⟨hscheme, by simpa using hcolon⟩

/-! ## The requests of a case -/

/-- What a loop over a value runs through; an absent value is an empty list. -/
def items (value : Json) : List Json := (value.orElse (.arr [])).iter.toOption.getD []

/-- The requests of a case: its own, those of the setup, the preflights of its identities, among
them the reader of a write verification, and the request and the reset of the verification. -/
inductive Sends (case : Json) : Json → Prop
  | request : Sends case (case.field "request")
  | setup {step : Json} (h : step ∈ items (case.field "setup")) : Sends case (step.field "request")
  | preflight {identity : Json} (h : identity ∈ items (case.field "identities"))
      (hp : identity.field "preflight" ≠ .null) : Sends case (identity.field "preflight")
  | reader (h : (case.field "write_verification").hasField "identity" = true)
      (hp : ((case.field "write_verification").field "identity").field "preflight" ≠ .null) :
      Sends case (((case.field "write_verification").field "identity").field "preflight")
  | verification (h : case.field "write_verification" ≠ .null) :
      Sends case ((case.field "write_verification").field "request")
  | reset (h : case.field "write_verification" ≠ .null)
      (hr : (case.field "write_verification").field "reset" ≠ .null) :
      Sends case (((case.field "write_verification").field "reset").field "request")

omit [Unicode] in
/-- The loop over an optional field. -/
theorem items_eq {case value : Json} {k : String} {l : List Json} (h : case.get k = .ok value)
    (hl : (value.orElse (.arr [])).iter = .ok l) : items (case.field k) = l := by
  rw [items, Json.get_eq_ok h, hl]
  rfl

omit [Unicode] in
/-- A loop whose every result is a function of its element. -/
theorem eq_map_of_mapM {f : Json → Except Exn Json} {g : Json → Json} {l out : List Json}
    (hf : ∀ a b, f a = .ok b → b = g a) (h : l.mapM f = .ok out) : out = l.map g := by
  have hpairs := mapM_eq_ok h
  clear h
  induction hpairs with
  | nil => rfl
  | cons hb _ ih => rw [List.map_cons, ← hf _ _ hb, ← ih]

omit [Unicode] in
/-- The identities whose preflights are sent: the reader of a write verification among them. -/
theorem mem_caseIdentities {case : Json} {l : List Json} (h : caseIdentities case = .ok l)
    (identity : Json) : identity ∈ l ↔
      identity ∈ items (case.field "identities") ∨
        (case.field "write_verification").hasField "identity" = true ∧
          identity = (case.field "write_verification").field "identity" := by
  unfold caseIdentities at h
  obtain ⟨value, hvalue, h⟩ := bind_eq_ok h
  obtain ⟨own, hown, h⟩ := bind_eq_ok h
  obtain ⟨verification, hverification, h⟩ := bind_eq_ok h
  rw [items_eq hvalue hown, Json.get_eq_ok hverification]
  have hobj : verification.hasField "identity" = true → verification.isObj = true := by
    cases verification <;> simp [Json.hasField, Json.isObj]
  split at h
  · rename_i hreader
    rw [Bool.and_eq_true] at hreader
    obtain rfl := Except.ok.inj h
    simp [hreader.2]
  · rename_i hreader
    obtain rfl := Except.ok.inj h
    have hnone : ¬ verification.hasField "identity" = true := fun hf =>
      hreader (by rw [hobj hf, hf]; rfl)
    simp [hnone]

omit [Unicode] in
/-- The requests of a write verification. -/
theorem mem_verificationRequests {verification request : Json} {l : List Json}
    (h : caseRequests.verificationRequests verification = .ok l) : request ∈ l ↔
      verification ≠ .null ∧ (request = verification.field "request" ∨
        verification.field "reset" ≠ .null ∧
          request = (verification.field "reset").field "request") := by
  unfold caseRequests.verificationRequests at h
  split at h
  · rename_i hnull
    obtain rfl := Except.ok.inj h
    simp [beq_iff_eq.mp hnull]
  rename_i hnull
  have hne : verification ≠ .null := fun hv => hnull (beq_iff_eq.mpr hv)
  obtain ⟨own, hown, h⟩ := bind_eq_ok h
  obtain ⟨reset, hreset, h⟩ := bind_eq_ok h
  rw [Json.item_eq_ok hown, Json.get_eq_ok hreset]
  split at h
  · rename_i hnone
    obtain rfl := Except.ok.inj h
    simp [hne, beq_iff_eq.mp hnone]
  · rename_i hsome
    obtain ⟨again, hagain, h⟩ := bind_eq_ok h
    obtain rfl := Except.ok.inj h
    have hrne : reset ≠ .null := fun hv => hsome (beq_iff_eq.mpr hv)
    simp [hne, hrne, Json.item_eq_ok hagain]

omit [Unicode] in
/-- The requests that the binding collects are those that the case sends. -/
theorem mem_caseRequests {case request : Json} {requests : List Json}
    (h : caseRequests case = .ok requests) : request ∈ requests ↔ Sends case request := by
  unfold caseRequests at h
  obtain ⟨own, hown, h⟩ := bind_eq_ok h
  obtain ⟨setupValue, hsetup, h⟩ := bind_eq_ok h
  obtain ⟨setup, hsetupItems, h⟩ := bind_eq_ok h
  obtain ⟨steps, hsteps, h⟩ := bind_eq_ok h
  obtain ⟨identities, hidentities, h⟩ := bind_eq_ok h
  obtain ⟨preflights, hpreflights, h⟩ := bind_eq_ok h
  obtain ⟨verification, hverification, h⟩ := bind_eq_ok h
  obtain ⟨checks, hchecks, h⟩ := bind_eq_ok h
  obtain rfl := Except.ok.inj h
  obtain rfl := (Json.item_eq_ok hown).symm
  obtain rfl := (Json.get_eq_ok hverification).symm
  have hsetupEq := items_eq hsetup hsetupItems
  have hstepsEq := eq_map_of_mapM (fun _ _ hb => (Json.item_eq_ok hb).symm) hsteps
  have hpreflightsEq := eq_map_of_mapM (fun _ _ hb => (Json.get_eq_ok hb).symm) hpreflights
  have hmem := mem_caseIdentities hidentities
  simp only [List.mem_cons, List.mem_append, mem_verificationRequests hchecks, hstepsEq,
    hpreflightsEq, List.mem_filter, List.mem_map, hmem, bne_iff_ne]
  rw [← hsetupEq]
  constructor
  · rintro (rfl | (⟨step, hstep, rfl⟩ | ⟨⟨identity, hidentity, rfl⟩, hp⟩) | ⟨hv, rfl | ⟨hr, rfl⟩⟩)
    · exact .request
    · exact .setup hstep
    · rcases hidentity with hidentity | ⟨hreader, rfl⟩
      · exact .preflight hidentity hp
      · exact .reader hreader hp
    · exact .verification hv
    · exact .reset hv hr
  · intro hsends
    cases hsends with
    | request => exact .inl rfl
    | setup hstep => exact .inr (.inl (.inl ⟨_, hstep, rfl⟩))
    | preflight hidentity hp => exact .inr (.inl (.inr ⟨⟨_, .inl hidentity, rfl⟩, hp⟩))
    | reader hreader hp => exact .inr (.inl (.inr ⟨⟨_, .inr ⟨hreader, rfl⟩, rfl⟩, hp⟩))
    | verification hv => exact .inr (.inr ⟨hv, .inl rfl⟩)
    | reset hv hr => exact .inr (.inr ⟨hv, .inr ⟨hr, rfl⟩⟩)

/-! ## One set of origins, written in several ways -/

/-- One document, with at most one of its URLs spelled in another way that names the same
origin. -/
inductive UrlRespelled : Json → Json → Prop
  | same (v : Json) : UrlRespelled v v
  | url (fs gs : List (String × Json)) {u u' : Json} (h : urlOrigin u = urlOrigin u') :
      UrlRespelled (.obj (fs ++ ("url", u) :: gs)) (.obj (fs ++ ("url", u') :: gs))
  | field (fs gs : List (String × Json)) (k : String) {v v' : Json} (h : UrlRespelled v v') :
      UrlRespelled (.obj (fs ++ (k, v) :: gs)) (.obj (fs ++ (k, v') :: gs))
  | element (xs ys : List Json) {v v' : Json} (h : UrlRespelled v v') :
      UrlRespelled (.arr (xs ++ v :: ys)) (.arr (xs ++ v' :: ys))

/-- One case, with its setup steps or its identities in another order. -/
inductive StepsReordered : Json → Json → Prop
  | mk (fs gs : List (String × Json)) {k : String} (hk : k = "setup" ∨ k = "identities")
      {l l' : List Json} (h : l.Perm l') :
      StepsReordered (.obj (fs ++ (k, .arr l) :: gs)) (.obj (fs ++ (k, .arr l') :: gs))

omit [Unicode] in
/-- Two dictionaries that differ in one value. -/
theorem lookup_middle (fs gs : List (String × Json)) (k k' : String) (v v' : Json) :
    (fs ++ (k, v) :: gs).lookup k' = (fs ++ (k, v') :: gs).lookup k' ∨
      k' = k ∧ (fs ++ (k, v) :: gs).lookup k' = some v ∧
        (fs ++ (k, v') :: gs).lookup k' = some v' := by
  induction fs with
  | nil =>
    rw [List.nil_append, List.nil_append, List.lookup_cons, List.lookup_cons]
    by_cases hk : k' = k
    · subst hk
      simp
    · simp [beq_eq_false_iff_ne.mpr hk]
  | cons f fs ih =>
    obtain ⟨n, w⟩ := f
    rw [List.cons_append, List.cons_append, List.lookup_cons, List.lookup_cons]
    by_cases hk : k' = n
    · simp [hk]
    · simpa only [beq_eq_false_iff_ne.mpr hk] using ih

/-- A document and its respelling are read alike. -/
theorem UrlRespelled.lookup {fs gs : List (String × Json)} (h : UrlRespelled (.obj fs) (.obj gs))
    {k : String} (hk : k ≠ "url") :
    fs.lookup k = gs.lookup k ∨
      ∃ v v', fs.lookup k = some v ∧ gs.lookup k = some v' ∧ UrlRespelled v v' := by
  cases h with
  | same => exact .inl rfl
  | url fs gs h =>
    rcases lookup_middle fs gs "url" k _ _ with heq | ⟨hurl, -⟩
    · exact .inl heq
    · exact absurd hurl hk
  | field fs gs n h =>
    rcases lookup_middle fs gs n k _ _ with heq | ⟨-, hv, hv'⟩
    · exact .inl heq
    · exact .inr ⟨_, _, hv, hv', h⟩

theorem UrlRespelled.item {j j' : Json} (h : UrlRespelled j j') {k : String} (hk : k ≠ "url") :
    Coupled UrlRespelled (j.item k) (j'.item k) := by
  cases j with
  | obj fs =>
    cases j' with
    | obj gs =>
      rcases h.lookup hk with heq | ⟨v, v', hv, hv', hr⟩
      · simp only [Json.item, heq]
        exact .refl .same _
      · simp only [Json.item, hv, hv']
        exact .ok hr
    | _ => cases h
  | _ =>
    cases h with
    | _ => exact .error _ _

theorem UrlRespelled.get {j j' : Json} (h : UrlRespelled j j') {k : String} (hk : k ≠ "url") :
    Coupled UrlRespelled (j.get k) (j'.get k) := by
  cases j with
  | obj fs =>
    cases j' with
    | obj gs =>
      rcases h.lookup hk with heq | ⟨v, v', hv, hv', hr⟩
      · simp only [Json.get_obj, heq]
        exact .refl .same _
      · simp only [Json.get_obj, hv, hv']
        exact .ok hr
    | _ => cases h
  | _ =>
    cases h with
    | _ => exact .error _ _

theorem UrlRespelled.urlOrigin_eq {u u' : Json} (h : UrlRespelled u u') :
    urlOrigin u = urlOrigin u' := by
  cases h with
  | same => rfl
  | _ => rfl

/-- A respelled request keeps its origin. -/
theorem UrlRespelled.requestOrigin_eq {r r' : Json} (h : UrlRespelled r r') :
    requestOrigin r = requestOrigin r' := by
  cases h with
  | same => rfl
  | url fs gs h =>
    simp only [requestOrigin, Json.item]
    rcases lookup_middle fs gs "url" "url" _ _ with heq | ⟨-, hv, hv'⟩
    · rw [heq]
    · rw [hv, hv']
      exact h
  | field fs gs k h =>
    simp only [requestOrigin, Json.item]
    rcases lookup_middle fs gs k "url" _ _ with heq | ⟨-, hv, hv'⟩
    · rw [heq]
    · rw [hv, hv']
      exact h.urlOrigin_eq
  | element => rfl

omit [Unicode] in
theorem truthy_obj (fs gs : List (String × Json)) (f : String × Json) :
    (Json.obj (fs ++ f :: gs)).truthy = true := by
  cases fs <;> rfl

omit [Unicode] in
theorem truthy_arr (xs ys : List Json) (x : Json) : (Json.arr (xs ++ x :: ys)).truthy = true := by
  cases xs <;> rfl

/-- The steps of a respelled list are respelled. -/
theorem UrlRespelled.iter {v v' : Json} (h : UrlRespelled v v') :
    Coupled (Matched UrlRespelled) (v.orElse (.arr [])).iter (v'.orElse (.arr [])).iter := by
  have hsame : ∀ x : Except Exn (List Json), Coupled (Matched UrlRespelled) x x :=
    Coupled.refl fun l => .refl .same l
  cases h with
  | same => exact hsame _
  | url fs gs h =>
    simp only [Json.orElse, truthy_obj, if_true, Json.iter, List.map_append, List.map_cons]
    exact hsame (.ok _)
  | field fs gs k h =>
    simp only [Json.orElse, truthy_obj, if_true, Json.iter, List.map_append, List.map_cons]
    exact hsame (.ok _)
  | element xs ys h =>
    simp only [Json.orElse, truthy_arr, if_true, Json.iter]
    exact .ok ((Matched.refl .same xs).append ((Matched.refl .same ys).cons h))

theorem UrlRespelled.eq_null_iff {v v' : Json} (h : UrlRespelled v v') :
    (v == .null) = (v' == .null) := by
  cases h with
  | same => rfl
  | _ => rfl

theorem UrlRespelled.hasField_eq {v v' : Json} (h : UrlRespelled v v') {k : String}
    (hk : k ≠ "url") : (v.isObj && v.hasField k) = (v'.isObj && v'.hasField k) := by
  cases v with
  | obj fs =>
    cases v' with
    | obj gs =>
      rcases h.lookup hk with heq | ⟨_, _, hv, hv', -⟩
      · simp only [Json.hasField, heq]
        rfl
      · simp only [Json.hasField, hv, hv']
        rfl
    | _ => cases h
  | _ =>
    cases h with
    | _ => rfl

theorem UrlRespelled.field_read {v v' : Json} (h : UrlRespelled v v') {k : String}
    (hk : k ≠ "url") : UrlRespelled (v.field k) (v'.field k) := by
  cases v with
  | obj fs =>
    cases v' with
    | obj gs =>
      simp only [Json.field]
      rcases h.lookup hk with heq | ⟨_, _, hv, hv', hr⟩
      · rw [heq]
        exact .same _
      · rw [hv, hv']
        exact hr
    | _ => cases h
  | _ =>
    cases h with
    | _ => exact .same _

/-- Two cases that are read alike wherever the requests are collected. -/
structure ReadAlike (case case' : Json) : Prop where
  request : Coupled UrlRespelled (case.item "request") (case'.item "request")
  steps {k : String} (hk : k = "setup" ∨ k = "identities") :
    Coupled (Matched UrlRespelled) (do ((← case.get k).orElse (.arr [])).iter)
      (do ((← case'.get k).orElse (.arr [])).iter)
  verification : Coupled UrlRespelled (case.get "write_verification")
    (case'.get "write_verification")

theorem UrlRespelled.readAlike {case case' : Json} (h : UrlRespelled case case') :
    ReadAlike case case' where
  request := h.item (by decide)
  steps := by
    intro k hk
    exact (h.get (by rcases hk with rfl | rfl <;> decide)).bind fun _ _ hv => hv.iter
  verification := h.get (by decide)

theorem StepsReordered.readAlike {case case' : Json} (h : StepsReordered case case') :
    ReadAlike case case' := by
  obtain ⟨fs, gs, hk, hp⟩ := h
  rename_i k l l'
  have hother : ∀ n : String, n ≠ k → (fs ++ (k, Json.arr l) :: gs).lookup n =
      (fs ++ (k, Json.arr l') :: gs).lookup n := by
    intro n hn
    exact (lookup_middle fs gs k n _ _).resolve_right fun hne => hn hne.1
  have hmatched : Matched UrlRespelled l l' := .of_perm .same hp
  have hiter : ∀ m : List Json, ((Json.arr m).orElse (.arr [])).iter = .ok m := by
    intro m
    cases m <;> rfl
  constructor
  · simp only [Json.item, hother "request" (by rcases hk with rfl | rfl <;> decide)]
    exact .refl .same _
  · intro n _
    simp only [Json.get_obj]
    rcases lookup_middle fs gs k n (.arr l) (.arr l') with heq | ⟨-, hv, hv'⟩
    · rw [heq]
      exact .refl (fun m => .refl .same m) _
    · simp only [hv, hv', Option.getD_some]
      change Coupled _ ((Json.arr l).orElse (.arr [])).iter ((Json.arr l').orElse (.arr [])).iter
      rw [hiter, hiter]
      exact .ok hmatched
  · simp only [Json.get_obj, hother "write_verification" (by rcases hk with rfl | rfl <;> decide)]
    exact .refl .same _

/-- Their identities match, the reader of a write verification included. -/
theorem ReadAlike.caseIdentities {case case' : Json} (h : ReadAlike case case') :
    Coupled (Matched UrlRespelled) (caseIdentities case) (VardrMap.caseIdentities case') := by
  have hown := h.steps (.inr rfl)
  rw [VardrMap.caseIdentities, VardrMap.caseIdentities, ← bind_assoc, ← bind_assoc]
  refine hown.bind fun l l' hl => h.verification.bind fun v v' hv => ?_
  rw [hv.hasField_eq (by decide)]
  split
  · exact .ok (hl.append ((Matched.refl .same []).cons (hv.field_read (by decide))))
  · exact .ok hl

theorem UrlRespelled.verificationRequests {v v' : Json} (h : UrlRespelled v v') :
    Coupled (Matched UrlRespelled) (caseRequests.verificationRequests v)
      (caseRequests.verificationRequests v') := by
  unfold caseRequests.verificationRequests
  rw [h.eq_null_iff]
  split
  · exact .ok (.refl .same [])
  refine (h.item (by decide)).bind fun r r' hr => (h.get (by decide)).bind fun s s' hs => ?_
  rw [hs.eq_null_iff]
  split
  · exact .ok ((Matched.refl .same []).cons hr)
  · refine (hs.item (by decide)).bind fun t t' ht => ?_
    exact .ok (((Matched.refl .same []).cons ht).cons hr)

/-- Two cases that are read alike send the same requests, up to their spelling and order. -/
theorem ReadAlike.caseRequests {case case' : Json} (h : ReadAlike case case') :
    Coupled (Matched UrlRespelled) (caseRequests case) (VardrMap.caseRequests case') := by
  unfold VardrMap.caseRequests
  refine h.request.bind fun r r' hr => ?_
  have hsetup := h.steps (.inl rfl)
  rw [← bind_assoc (case.get "setup"), ← bind_assoc (case'.get "setup")]
  refine hsetup.bind fun l l' hl => ?_
  refine (Coupled.mapM hl fun _ _ hs => hs.item (by decide)).bind fun steps steps' hsteps => ?_
  refine h.caseIdentities.bind fun ids ids' hids => ?_
  refine (Coupled.mapM hids fun _ _ hs => hs.get (by decide)).bind fun pres pres' hpres => ?_
  refine h.verification.bind fun v v' hv => hv.verificationRequests.bind fun cs cs' hcs => ?_
  have hfilter := hpres.filter (p := (· != .null)) (q := (· != .null)) fun a b hab => by
    rw [bne, bne, hab.eq_null_iff]
  exact .ok (((hsteps.append hfilter).append hcs).cons hr)

/-! ## The digest of a case -/

omit [Unicode] in
mutual

theorem exists_dumps (v : Json) : ∃ t, v.dumps true = .ok t := by
  cases v with
  | null => exact ⟨_, rfl⟩
  | bool b => exact ⟨_, rfl⟩
  | int n => exact ⟨_, rfl⟩
  | float v r => exact ⟨_, rfl⟩
  | nonfinite r => exact ⟨_, rfl⟩
  | str s => exact ⟨_, rfl⟩
  | arr xs =>
    obtain ⟨items, hitems⟩ := exists_dumpsList xs
    exact ⟨_, by rw [Json.dumps, hitems]; rfl⟩
  | obj fs =>
    obtain ⟨items, hitems⟩ := exists_dumpsFields fs
    exact ⟨_, by rw [Json.dumps, hitems]; rfl⟩

theorem exists_dumpsList (xs : List Json) : ∃ ts, Json.dumpsList true xs = .ok ts := by
  cases xs with
  | nil => exact ⟨_, rfl⟩
  | cons x xs =>
    obtain ⟨t, ht⟩ := exists_dumps x
    obtain ⟨ts, hts⟩ := exists_dumpsList xs
    exact ⟨_, by rw [Json.dumpsList, ht, hts]; rfl⟩

theorem exists_dumpsFields (fs : List (String × Json)) :
    ∃ ts, Json.dumpsFields true fs = .ok ts := by
  cases fs with
  | nil => exact ⟨_, rfl⟩
  | cons f fs =>
    obtain ⟨k, x⟩ := f
    obtain ⟨t, ht⟩ := exists_dumps x
    obtain ⟨ts, hts⟩ := exists_dumpsFields fs
    exact ⟨_, by rw [Json.dumpsFields, ht, hts]; rfl⟩

end

/-! ## What a claim is charged -/

/-- The origins of the requests that a case sends. -/
def sentOrigins (case : Json) : Set Origin := {o | ∃ r, Sends case r ∧ requestOrigin r = .ok o}

theorem mapM_representedOrigin (requests : List Json) : requests.mapM representedOrigin =
    (requests.mapM requestOrigin).map (List.map Origin.text) := by
  induction requests with
  | nil => rfl
  | cons r rs ih =>
    rw [List.mapM_cons, List.mapM_cons, ih, representedOrigin_eq]
    cases requestOrigin r with
    | error e => rfl
    | ok o => cases rs.mapM requestOrigin <;> rfl

/-- A binding lists the texts of the origins of the requests, each once and in order. -/
theorem targetBinding_eq_ok {case : Json} {b : TargetBinding} (h : targetBinding case = .ok b) :
    ∃ requests origins, caseRequests case = .ok requests ∧
      requests.mapM requestOrigin = .ok origins ∧
        b.origins = sortedSet (origins.map Origin.text) := by
  unfold targetBinding at h
  split at h
  swap
  · cases h
  rename_i b' hbound
  obtain rfl := Except.ok.inj h
  unfold targetBinding.bound at hbound
  obtain ⟨requests, hrequests, hbound⟩ := bind_eq_ok hbound
  obtain ⟨texts, htexts, hbound⟩ := bind_eq_ok hbound
  dsimp only at hbound
  split at hbound
  · cases hbound
  obtain ⟨hash, -, hbound⟩ := bind_eq_ok hbound
  obtain rfl := Except.ok.inj hbound
  rw [mapM_representedOrigin] at htexts
  cases horigins : requests.mapM requestOrigin with
  | error e => simp [horigins, Except.map] at htexts
  | ok origins =>
    rw [horigins] at htexts
    exact ⟨requests, origins, hrequests, horigins, by rw [← Except.ok.inj htexts]⟩

theorem mem_sentOrigins {case : Json} {requests : List Json} {origins : List Origin}
    (hr : caseRequests case = .ok requests) (ho : requests.mapM requestOrigin = .ok origins)
    (o : Origin) : o ∈ sentOrigins case ↔ o ∈ origins := by
  have hmatched := Matched.of_forall₂ (mapM_eq_ok ho)
  constructor
  · rintro ⟨r, hsends, hro⟩
    obtain ⟨o', ho', hro'⟩ := hmatched.1 r ((mem_caseRequests hr).mpr hsends)
    obtain rfl := Except.ok.inj (hro.symm.trans hro')
    exact ho'
  · intro hmem
    obtain ⟨r, hr', hro⟩ := hmatched.2 o hmem
    exact ⟨r, (mem_caseRequests hr).mp hr', hro⟩

/-- The binding of a case has one text for each of its origins. -/
theorem binding_origins {case : Json} {b : TargetBinding} (h : targetBinding case = .ok b) :
    (∀ r, Sends case r → ∃ o, requestOrigin r = .ok o) ∧
      (∀ t, t ∈ b.origins ↔ ∃ o ∈ sentOrigins case, o.text = t) ∧
        b.origins.Nodup ∧ b.origins.length = (sentOrigins case).ncard := by
  obtain ⟨requests, origins, hr, ho, hb⟩ := targetBinding_eq_ok h
  have hmatched := Matched.of_forall₂ (mapM_eq_ok ho)
  have hmem := mem_sentOrigins hr ho
  have hset : sentOrigins case = (origins.toFinset : Set Origin) := by
    ext o
    simp [hmem]
  have hinj : ∀ o ∈ origins, ∀ o' ∈ origins, o.text = o'.text → o = o' := by
    intro o hom o' hom' htext
    obtain ⟨r, -, hro⟩ := hmatched.2 o hom
    obtain ⟨r', -, hro'⟩ := hmatched.2 o' hom'
    exact Origin.text_inj (requestOrigin_proper hro) (requestOrigin_proper hro') htext
  refine ⟨fun r hsends => ?_, fun t => ?_, ?_, ?_⟩
  · obtain ⟨o, -, hro⟩ := hmatched.1 r ((mem_caseRequests hr).mpr hsends)
    exact ⟨o, hro⟩
  · rw [hb, mem_sortedSet, List.mem_map]
    simp only [hmem]
  · rw [hb]
    exact nodup_sortedSet _
  · rw [hb, sortedSet, List.length_insertionSort, ← List.card_toFinset, hset, Set.ncard_coe_finset]
    rw [show (origins.map Origin.text).toFinset = origins.toFinset.image Origin.text by
      ext t
      simp]
    refine Finset.card_image_of_injOn fun o hom o' hom' htext => ?_
    exact hinj o (by simpa using hom) o' (by simpa using hom') htext

/-- Two cases that are read alike are bound to the same origins, or refused together. -/
theorem ReadAlike.binding {case case' : Json} (h : ReadAlike case case') :
    (targetBinding case).map TargetBinding.origins =
      (targetBinding case').map TargetBinding.origins := by
  have hbound : Coupled (fun b b' => b.origins = b'.origins) (targetBinding.bound case)
      (targetBinding.bound case') := by
    unfold targetBinding.bound
    refine h.caseRequests.bind fun rs rs' hrs => ?_
    refine (Coupled.mapM (S := Eq) hrs fun r r' hr => ?_).bind fun ts ts' hts => ?_
    · rw [representedOrigin_eq, representedOrigin_eq, hr.requestOrigin_eq]
      exact .refl (fun _ => rfl) _
    have hsorted : sortedSet ts = sortedSet ts' :=
      sortedSet_congr fun t => ⟨fun ht => by
        obtain ⟨_, ht', rfl⟩ := hts.1 t ht
        exact ht', fun ht => by
        obtain ⟨_, ht', rfl⟩ := hts.2 t ht
        exact ht'⟩
    dsimp only
    rw [hsorted]
    split
    · exact .error _ _
    · obtain ⟨t, ht⟩ := exists_dumps case
      obtain ⟨t', ht'⟩ := exists_dumps case'
      simp only [caseHash, ht, ht']
      exact .ok rfl
  unfold targetBinding
  cases hb : targetBinding.bound case with
  | error e =>
    rw [hb] at hbound
    cases hb' : targetBinding.bound case' with
    | error e' => rfl
    | ok b' =>
      rw [hb'] at hbound
      cases hbound
  | ok b =>
    rw [hb] at hbound
    cases hb' : targetBinding.bound case' with
    | error e' =>
      rw [hb'] at hbound
      cases hbound
    | ok b' =>
      rw [hb'] at hbound
      cases hbound with
      | ok heq => exact congrArg Except.ok heq

/-- A request whose URL cannot be read has the case refused. -/
theorem targetBinding_refuses {case r : Json} (hr : Sends case r)
    (ho : ∀ o, requestOrigin r ≠ .ok o) :
    targetBinding case = .error (.http 409 "unsupported target budget case") := by
  cases h : targetBinding case with
  | ok b =>
    obtain ⟨o, hro⟩ := (binding_origins h).1 r hr
    exact absurd hro (ho o)
  | error e =>
    unfold targetBinding at h
    split at h
    · cases h
    · exact congrArg Except.error (Except.error.inj h).symm

/-- A claim that is charged is charged the origins of its binding. -/
theorem charge_binding {e e' : Engagement} {job : ScanJob} {case : Json}
    {body : Option ClaimControl} {receipt : TargetReceipt}
    (h : charge e job (some case) body = .ok (e', some receipt)) :
    ∃ b, targetBinding case = .ok b ∧ receipt.charged = b.origins.length := by
  unfold charge at h
  split at h
  · obtain ⟨_, -, h⟩ := bind_eq_ok h
    cases h
  · obtain ⟨_, -, h⟩ := bind_eq_ok h
    obtain ⟨expected, hexpected, h⟩ := bind_eq_ok h
    obtain ⟨_, -, h⟩ := bind_eq_ok h
    dsimp only at h
    obtain ⟨_, -, h⟩ := bind_eq_ok h
    obtain ⟨-, hreceipt⟩ := Prod.mk.inj (Except.ok.inj h)
    obtain rfl := Option.some.inj hreceipt
    exact ⟨expected, hexpected, rfl⟩

/-- A claim that is not charged is one of an engagement without a target limit. -/
theorem charge_uncharged {e e' : Engagement} {job : ScanJob} {case : Option Json}
    {body : Option ClaimControl} (h : charge e job case body = .ok (e', none)) :
    e.targetLimit = none ∧ e' = e := by
  unfold charge at h
  split at h
  · rename_i hlimit
    obtain ⟨_, -, h⟩ := bind_eq_ok h
    obtain ⟨rfl, -⟩ := Prod.mk.inj (Except.ok.inj h)
    exact ⟨hlimit, rfl⟩
  · obtain ⟨_, -, h⟩ := bind_eq_ok h
    obtain ⟨expected, -, h⟩ := bind_eq_ok h
    obtain ⟨_, -, h⟩ := bind_eq_ok h
    dsimp only at h
    obtain ⟨_, -, h⟩ := bind_eq_ok h
    cases h

/-- The binding of a case is the set of the origins of all requests that it sends, each once.
Neither the spelling of a URL nor the order of the steps matters, the charge is the size of the
set, and a request whose URL cannot be read refuses the claim with nothing charged. -/
theorem binding_charges_origins (case : Json) :
    (∀ b, targetBinding case = .ok b →
      (∀ t, t ∈ b.origins ↔ ∃ o ∈ sentOrigins case, o.text = t) ∧ b.origins.Nodup ∧
        b.origins.length = (sentOrigins case).ncard) ∧
    (∀ case', UrlRespelled case case' ∨ StepsReordered case case' →
      (targetBinding case).map TargetBinding.origins =
        (targetBinding case').map TargetBinding.origins) ∧
    (∀ e job body e' receipt, charge e job (some case) body = .ok (e', some receipt) →
      receipt.charged = (sentOrigins case).ncard ∧
        e'.targetsSpent = e.targetsSpent + (sentOrigins case).ncard) ∧
    ∀ r, Sends case r → (∀ o, requestOrigin r ≠ .ok o) →
      targetBinding case = .error (.http 409 "unsupported target budget case") ∧
        ∀ e job body e' receipt, charge e job (some case) body = .ok (e', receipt) →
          e.targetLimit = none ∧ e' = e ∧ receipt = none := by
  refine ⟨fun b hb => (binding_origins hb).2, ?_, ?_, ?_⟩
  · rintro case' (hspelled | hordered)
    · exact hspelled.readAlike.binding
    · exact hordered.readAlike.binding
  · intro e job body e' receipt hcharge
    obtain ⟨b, hb, hcharged⟩ := charge_binding hcharge
    obtain ⟨-, -, hlength⟩ := (binding_origins hb).2
    obtain ⟨rfl, -⟩ := charge_eq_ok hcharge
    rw [hlength] at hcharged
    exact ⟨hcharged, by rw [← hcharged]; rfl⟩
  · intro r hr ho
    have hrefused := targetBinding_refuses hr ho
    refine ⟨hrefused, fun e job body e' receipt hcharge => ?_⟩
    cases receipt with
    | none =>
      obtain ⟨hlimit, he⟩ := charge_uncharged hcharge
      exact ⟨hlimit, he, rfl⟩
    | some receipt =>
      obtain ⟨b, hb, -⟩ := charge_binding hcharge
      rw [hrefused] at hb
      cases hb

end VardrMap
