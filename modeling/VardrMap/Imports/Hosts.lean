import VardrMap.Imports.Probes

/-!
# Which hosts the httpx importer tells apart

The importer takes two rows for one host when the same text is read as their host. What is
read is compared with the host that a string names: its authority ends at the first slash,
question mark or hash, and an address may stand in it without brackets. A row names hosts by
its URL as well as by its host, and takes its key from the second where it can.
-/
namespace VardrMap.Imports
open Lib Assets Parsers
variable [Unicode]

/-! ## The host that a string names -/

/-- A string in lower case, without blanks around it. -/
def lowered (v : Text) : Text := Unicode.lower (Text.strip v)

omit [Unicode] in
/-- What follows the scheme, when there is one. -/
def afterUrlScheme (s : Text) : Text :=
  match Text.cut "://".toList s with
  | some (scheme, rest) => if !scheme.isEmpty && scheme.all Url.schemeChar then rest else s
  | none => s

/-- Host and port: up to the path, query or fragment, and without user information. -/
def namedAuthority (v : Text) : Text :=
  Text.afterLast '@' ((afterUrlScheme (lowered v)).takeWhile fun c => !Url.endsAuthority c)

/-- The host that a string names: within brackets, a whole address, or up to the port. -/
def namedHost (v : Text) : Text :=
  match namedAuthority v with
  | '[' :: rest => Text.before ']' rest
  | authority => if (Ip.address authority).isSome then authority else Text.before ':' authority

/-- A string whose scheme comes first, whose query and fragment come after its path, and whose
authority is no address that needs brackets. -/
structure Plain (v : Text) : Prop where
  scheme : ∀ scheme rest, Text.cut "://".toList (lowered v) = some (scheme, rest) →
    scheme ≠ [] ∧ scheme.all Url.schemeChar = true
  path : ∀ c ∈ Text.before '/' (afterUrlScheme (lowered v)), c ≠ '?' ∧ c ≠ '#'
  bracketed : ':' ∈ namedAuthority v → Ip.address (namedAuthority v) = none

omit [Unicode] in
theorem takeWhile_endsAuthority {l : Text} (h : ∀ c ∈ Text.before '/' l, c ≠ '?' ∧ c ≠ '#') :
    l.takeWhile (fun c => !Url.endsAuthority c) = Text.before '/' l := by
  induction l with
  | nil => rfl
  | cons c l ih =>
    by_cases hslash : c = '/'
    · subst hslash
      rfl
    · have hcons : Text.before '/' (c :: l) = c :: Text.before '/' l := by
        simp [Text.before, hslash]
      rw [hcons] at h ⊢
      have hc := h c List.mem_cons_self
      have hends : Url.endsAuthority c = false := by simp [Url.endsAuthority, hslash, hc]
      rw [List.takeWhile_cons_of_pos (by simp [hends]),
        ih fun d hd => h d (List.mem_cons_of_mem _ hd)]

/-- The host of an authority that is not in brackets stands before its port. -/
theorem Plain.namedHost_of_open {v : Text} (h : Plain v)
    (hopen : ∀ rest, namedAuthority v ≠ '[' :: rest) :
    namedHost v = Text.before ':' (namedAuthority v) := by
  unfold namedHost
  split
  · rename_i rest hbracket
    exact absurd hbracket (hopen rest)
  · split
    · rename_i haddress
      refine (Text.before_of_notMem fun hcolon => ?_).symm
      rw [h.bracketed hcolon] at haddress
      cases haddress
    · rfl

theorem namedHost_of_bracket {v rest : Text} (h : namedAuthority v = '[' :: rest) :
    namedHost v = Text.before ']' rest := by
  simp [namedHost, h]

/-- What is read as the host of a plain string. -/
theorem Plain.hostOf_eq {v : Text} (h : Plain v) : hostOf v =
    match namedAuthority v with
    | '[' :: _ => Text.before ']' (namedAuthority v) ++ [']']
    | _ => Text.before ':' (namedAuthority v) := by
  have hrest : (match Text.cut "://".toList (lowered v) with
      | some (_, rest) => rest
      | none => lowered v) = afterUrlScheme (lowered v) := by
    unfold afterUrlScheme
    cases hcut : Text.cut "://".toList (lowered v) with
    | none => rfl
    | some p =>
      obtain ⟨hne, hall⟩ := h.scheme p.1 p.2 hcut
      simp [hne, hall]
  have hauthority : Text.afterLast '@' (Text.before '/' (afterUrlScheme (lowered v))) =
      namedAuthority v := by
    rw [namedAuthority, takeWhile_endsAuthority h.path]
  rw [← hauthority, ← hrest]
  rfl

theorem Plain.hostOf_of_bracket {v rest : Text} (h : Plain v)
    (hbracket : namedAuthority v = '[' :: rest) : hostOf v = '[' :: (namedHost v ++ [']']) := by
  have hhost := h.hostOf_eq
  rw [hbracket] at hhost
  rw [hhost, namedHost_of_bracket hbracket]
  simp [Text.before]

theorem Plain.hostOf_of_open {v : Text} (h : Plain v)
    (hopen : ∀ rest, namedAuthority v ≠ '[' :: rest) :
    hostOf v = namedHost v ∧ ∀ rest, namedHost v ≠ '[' :: rest := by
  have hnamed := h.namedHost_of_open hopen
  have hhost := h.hostOf_eq
  split at hhost
  · rename_i rest hbracket
    exact absurd hbracket (hopen rest)
  · refine ⟨hhost.trans hnamed.symm, fun rest hrest => ?_⟩
    rw [hnamed] at hrest
    cases hauthority : namedAuthority v with
    | nil =>
      rw [hauthority] at hrest
      cases hrest
    | cons c l =>
      rw [hauthority, Text.before, List.takeWhile_cons] at hrest
      split at hrest
      · exact hopen l (by rw [hauthority, (List.cons.inj hrest).1])
      · cases hrest

/-- Plain strings that are read alike name one host. -/
theorem Plain.namedHost_eq {a b : Text} (ha : Plain a) (hb : Plain b) (h : hostOf a = hostOf b) :
    namedHost a = namedHost b := by
  by_cases hbracket : ∃ rest, namedAuthority a = '[' :: rest
  · obtain ⟨rest, hbracket⟩ := hbracket
    rw [ha.hostOf_of_bracket hbracket] at h
    by_cases hbracket' : ∃ rest, namedAuthority b = '[' :: rest
    · obtain ⟨rest', hbracket'⟩ := hbracket'
      rw [hb.hostOf_of_bracket hbracket'] at h
      exact List.append_cancel_right (List.cons.inj h).2
    · obtain ⟨hhost, hno⟩ := hb.hostOf_of_open (not_exists.mp hbracket')
      exact absurd (hhost.symm.trans h.symm) (hno _)
  · obtain ⟨hhost, hno⟩ := ha.hostOf_of_open (not_exists.mp hbracket)
    rw [hhost] at h
    by_cases hbracket' : ∃ rest, namedAuthority b = '[' :: rest
    · obtain ⟨rest', hbracket'⟩ := hbracket'
      rw [hb.hostOf_of_bracket hbracket'] at h
      exact absurd h (hno _)
    · rw [h, (hb.hostOf_of_open (not_exists.mp hbracket')).1]

/-! ## The hosts of a row -/

omit [Unicode] in
theorem sameHost_iff {a b : Text} :
    SameHost a b ↔ Ip.address a = Ip.address b ∧ (Ip.address a = none → a = b) := by
  unfold SameHost
  cases Ip.address a <;> cases Ip.address b <;> simp

instance (a b : Text) : Decidable (SameHost a b) := decidable_of_iff' _ sameHost_iff

/-- Two rows name the same hosts: by what their keys are read from, and by their URLs. -/
def SameHosts (r r' : ReconItem) : Prop :=
  SameHost (namedHost (keyField r)) (namedHost (keyField r')) ∧
    (r.url ≠ [] → r'.url ≠ [] → SameHost (namedHost r.url) (namedHost r'.url))

theorem SameHosts.refl (r : ReconItem) : SameHosts r r :=
  ⟨SameHost.refl _, fun _ _ => SameHost.refl _⟩

/-- A row names a host by its URL or by its host. -/
def Names (r : ReconItem) (host : Text) : Prop :=
  r.url ≠ [] ∧ SameHost (namedHost r.url) host ∨ r.host ≠ [] ∧ SameHost (namedHost r.host) host

/-- The probes of a file never put rows of different hosts into one row, leave every host that
was reported in a row that names it, and read only one host as the same key. -/
structure Faithful (programId : String) (rows : List ReconItem) (targets : List Target)
    (stored : List ReconItem) : Prop where
  apart : ∀ e ∈ rows.zip targets, ∀ e' ∈ rows.zip targets, e.2.row = e'.2.row → SameHosts e.1 e'.1
  present : ∀ r ∈ rows, ∀ v ∈ [r.url, r.host], v ≠ [] →
    ∃ x ∈ stored, IsProbed programId x ∧ Names x (namedHost v)
  keyed : ∀ r ∈ rows, ∀ r' ∈ rows, hostOf (keyField r) = hostOf (keyField r') →
    SameHost (namedHost (keyField r)) (namedHost (keyField r'))

/-- A field of a stored row comes from a row of the upload that went into it, once one of them
has it. -/
def Carried (field : ReconItem → Text) (done : List (ReconItem × Target)) (n : ℕ) (r : ReconItem) :
    Prop :=
  (∃ e ∈ done, e.2.row = n ∧ field e.1 ≠ []) →
    ∃ e ∈ done, e.2.row = n ∧ field e.1 ≠ [] ∧ field r = field e.1

omit [Unicode] in
theorem exists_mem_zip {α β : Type} {l : List α} {l' : List β} (h : l'.length = l.length) {a : α}
    (ha : a ∈ l) : ∃ b, (a, b) ∈ l.zip l' := by
  rw [← List.map_fst_zip h.ge] at ha
  obtain ⟨⟨a, b⟩, hmem, rfl⟩ := List.mem_map.mp ha
  exact ⟨b, hmem⟩

/-- Where the rows of an upload went. -/
structure Traced (programId : String) (done : List (ReconItem × Target)) (p : Probing) : Prop where
  indexed : Indexed programId p.rows p.byHost
  own : ∀ e ∈ done, ∃ x, p.rows[e.2.row]? = some x ∧ IsProbed programId x.row ∧
    hostKey x.row = hostKey e.1 ∧ Carried ReconItem.url done e.2.row x.row ∧
      Carried ReconItem.host done e.2.row x.row
  found : ∀ e ∈ done, hostKey e.1 ≠ [] → p.byHost (hostKey e.1) = some e.2.row
  apart : ∀ e ∈ done, ∀ e' ∈ done, e.2.row = e'.2.row →
    e = e' ∨ hostKey e.1 = hostKey e'.1 ∧ hostKey e.1 ≠ []

omit [Unicode] in
/-- A row that went elsewhere changes nothing for a stored row. -/
theorem Carried.concat_of_ne {field : ReconItem → Text} {done : List (ReconItem × Target)} {n : ℕ}
    {r : ReconItem} (h : Carried field done n r) {e : ReconItem × Target} (hne : e.2.row ≠ n) :
    Carried field (done ++ [e]) n r := by
  rintro ⟨e', he', hn, hfield⟩
  rcases List.mem_append.mp he' with he' | he'
  · obtain ⟨e₀, he₀, hrest⟩ := h ⟨e', he', hn, hfield⟩
    exact ⟨e₀, List.mem_append_left _ he₀, hrest⟩
  · rw [List.mem_singleton.mp he'] at hn
    exact absurd hn hne

omit [Unicode] in
/-- A row that goes into a stored row leaves its field there, unless it is empty. -/
theorem Carried.concat {field : ReconItem → Text} {done : List (ReconItem × Target)} {n : ℕ}
    {r r' : ReconItem} (h : Carried field done n r) {e : ReconItem × Target} (hn : e.2.row = n)
    (hfield : field r' = enriched (field r) (field e.1)) : Carried field (done ++ [e]) n r' := by
  intro hex
  by_cases hempty : field e.1 = []
  · rw [hempty] at hfield
    have hdone : ∃ e ∈ done, e.2.row = n ∧ field e.1 ≠ [] := by
      obtain ⟨e', he', hrest⟩ := hex
      rcases List.mem_append.mp he' with he' | he'
      · exact ⟨e', he', hrest⟩
      · rw [List.mem_singleton.mp he'] at hrest
        exact absurd hempty hrest.2
    obtain ⟨e₀, he₀, hn₀, hne₀, heq⟩ := h hdone
    exact ⟨e₀, List.mem_append_left _ he₀, hn₀, hne₀, hfield.trans heq⟩
  · refine ⟨e, by simp, hn, hempty, hfield.trans ?_⟩
    simp [enriched, hempty]

/-- A row of a host that is stored. -/
theorem Traced.merge {c : Context} {done : List (ReconItem × Target)} {p p' : Probing}
    (h : Traced c.programId done p) {item : ReconItem} {n : ℕ} {x y : Stored ReconItem}
    (hn : p.byHost (hostKey item) = some n) (hx : p.rows[n]? = some x)
    (hy : y.row = enrich x.row item) (hrows : p'.rows = p.rows.set n y)
    (hbyHost : p'.byHost = p.byHost) (hindex : Indexed c.programId p'.rows p'.byHost) :
    Traced c.programId (done ++ [(item, ⟨n, false⟩)]) p' := by
  obtain ⟨z, hz, hprobed, hhost⟩ := h.indexed.points _ n hn
  obtain rfl := Option.some.inj (hx.symm.trans hz)
  have hne : hostKey item ≠ [] := by
    intro hempty
    rw [hempty, h.indexed.noHost] at hn
    cases hn
  have hlt : n < p.rows.length := (List.getElem?_eq_some_iff.mp hx).1
  have hy' : p'.rows[n]? = some y := by rw [hrows, List.getElem?_set_self hlt]
  have hykey : hostKey y.row = hostKey item := by rw [hy, hostKey_enrich hhost]
  -- the rows that went into the row of this host have its key
  have hsame : ∀ e ∈ done, e.2.row = n → hostKey e.1 = hostKey item := by
    intro e he hen
    obtain ⟨x', hx', -, hkey, -⟩ := h.own e he
    rw [hen, hx] at hx'
    rw [← hkey, ← Option.some.inj hx', hhost]
  have hcarried : Carried ReconItem.url done n x.row ∧ Carried ReconItem.host done n x.row := by
    constructor
    all_goals
      rintro ⟨e, he, hen, hfield⟩
      obtain ⟨x', hx', -, -, hurl, hhost'⟩ := h.own e he
      rw [hen] at hx' hurl hhost'
      obtain rfl := Option.some.inj (hx.symm.trans hx')
    · exact hurl ⟨e, he, hen, hfield⟩
    · exact hhost' ⟨e, he, hen, hfield⟩
  have hyurl := hcarried.1.concat (e := (item, ⟨n, false⟩)) rfl (by rw [hy]; rfl : y.row.url = _)
  have hyhost := hcarried.2.concat (e := (item, ⟨n, false⟩)) rfl (by rw [hy]; rfl : y.row.host = _)
  have hyprobed : IsProbed c.programId y.row := by rwa [hy]
  refine ⟨hindex, ?_, ?_, ?_⟩
  · intro e he
    by_cases hen : e.2.row = n
    · refine ⟨y, hen ▸ hy', hyprobed, ?_, hen ▸ hyurl, hen ▸ hyhost⟩
      rcases List.mem_append.mp he with he | he
      · rw [hykey, hsame e he hen]
      · rw [hykey, List.mem_singleton.mp he]
    · have he : e ∈ done := by
        rcases List.mem_append.mp he with he | he
        · exact he
        · exact absurd (by rw [List.mem_singleton.mp he]) hen
      obtain ⟨x', hx', hprobed', hkey, hurl, hhost'⟩ := h.own e he
      refine ⟨x', ?_, hprobed', hkey, hurl.concat_of_ne (Ne.symm hen),
        hhost'.concat_of_ne (Ne.symm hen)⟩
      rw [hrows, List.getElem?_set_ne (Ne.symm hen), hx']
  · intro e he hkey
    rw [hbyHost]
    rcases List.mem_append.mp he with he | he
    · exact h.found e he hkey
    · rw [List.mem_singleton.mp he, hn]
  · intro e he e' he' hrow
    rcases List.mem_append.mp he with he | he <;> rcases List.mem_append.mp he' with he' | he'
    · exact h.apart e he e' he' hrow
    · rw [List.mem_singleton.mp he'] at hrow ⊢
      exact .inr ⟨hsame e he hrow, hsame e he hrow ▸ hne⟩
    · rw [List.mem_singleton.mp he] at hrow ⊢
      exact .inr ⟨(hsame e' he' hrow.symm).symm, hne⟩
    · rw [List.mem_singleton.mp he, List.mem_singleton.mp he']
      exact .inl rfl

/-- A row of a new host, or without a host. -/
theorem Traced.add {c : Context} {done : List (ReconItem × Target)} {p p' : Probing}
    (h : Traced c.programId done p) {item : ReconItem} (hitem : IsProbed c.programId item)
    {x : Stored ReconItem} (hx : x.row = item) (hn : p.byHost (hostKey item) = none)
    (hrows : p'.rows = p.rows ++ [x])
    (hbyHost : p'.byHost = if hostKey item = [] then p.byHost
      else p.byHost.set (hostKey item) p.rows.length)
    (hindex : Indexed c.programId p'.rows p'.byHost) :
    Traced c.programId (done ++ [(item, ⟨p.rows.length, true⟩)]) p' := by
  have hlt : ∀ e ∈ done, e.2.row ≠ p.rows.length := by
    intro e he
    obtain ⟨x', hx', -⟩ := h.own e he
    exact Nat.ne_of_lt (List.getElem?_eq_some_iff.mp hx').1
  refine ⟨hindex, ?_, ?_, ?_⟩
  · intro e he
    rcases List.mem_append.mp he with he | he
    · obtain ⟨x', hx', hprobed, hkey, hurl, hhost⟩ := h.own e he
      refine ⟨x', ?_, hprobed, hkey, hurl.concat_of_ne (Ne.symm (hlt e he)),
        hhost.concat_of_ne (Ne.symm (hlt e he))⟩
      rw [hrows]
      exact getElem?_append_of_eq_some hx' _
    · rw [List.mem_singleton.mp he]
      refine ⟨x, by simp [hrows], hx ▸ hitem, by rw [hx], ?_, ?_⟩
      all_goals
        rintro ⟨e', he', hrow, hfield⟩
        rcases List.mem_append.mp he' with he' | he'
        · exact absurd hrow (hlt e' he')
        · obtain rfl := List.mem_singleton.mp he'
          exact ⟨_, by simp, rfl, hfield, by rw [hx]⟩
  · intro e he hkey
    rw [hbyHost]
    rcases List.mem_append.mp he with he | he
    · have hfound := h.found e he hkey
      split
      · exact hfound
      · rw [Dict.set_ne, hfound]
        intro heq
        rw [heq, hn] at hfound
        cases hfound
    · rw [List.mem_singleton.mp he] at hkey ⊢
      rw [if_neg hkey, Dict.set_self]
  · intro e he e' he' hrow
    rcases List.mem_append.mp he with he | he <;> rcases List.mem_append.mp he' with he' | he'
    · exact h.apart e he e' he' hrow
    · rw [List.mem_singleton.mp he'] at hrow
      exact absurd hrow (hlt e he)
    · rw [List.mem_singleton.mp he] at hrow
      exact absurd hrow.symm (hlt e' he')
    · rw [List.mem_singleton.mp he, List.mem_singleton.mp he']
      exact .inl rfl

/-- Every probe leaves a trace of where its row went. -/
theorem probeAll_traced {c : Context} {rows : List ReconItem} {s : Store} {p : Probing}
    (hrows : ∀ r ∈ rows, IsProbed c.programId r) (h : probeAll c rows s = .ok p) :
    p.targets.length = rows.length ∧ Traced c.programId (rows.zip p.targets) p := by
  refine @foldlM_induction _ _ _ _ (fun done p => p.targets.length = done.length ∧
    Traced c.programId (done.zip p.targets) p) [] _ _ _ h ⟨rfl, indexed_probing c s, ?_, ?_, ?_⟩ ?_
  · simp
  · simp
  · simp
  · rintro done item p p' hitem ⟨hlength, htraced⟩ hstep
    have hindex := htraced.indexed.probe (hrows item hitem) hstep
    obtain ⟨n, x, y, hn, hx, hy, hp', hbyHost, htargets⟩ | ⟨hn, ⟨x, hx, hp'⟩, hbyHost, htargets⟩ :=
      probe_eq_ok htraced.indexed hstep
    · rw [htargets, List.zip_append hlength.symm]
      exact ⟨by simp [hlength], htraced.merge hn hx hy hp' hbyHost hindex⟩
    · rw [htargets, List.zip_append hlength.symm]
      exact ⟨by simp [hlength], htraced.add (hrows item hitem) hx hn hp' hbyHost hindex⟩

/-! ## What the importer tells apart -/

/-- Two rows of one key that name the same hosts: their keys are read from plain strings, or
from strings that name one host, and their URLs name one host. -/
def Agree (r r' : ReconItem) : Prop :=
  (Plain (keyField r) ∧ Plain (keyField r') ∨
      SameHost (namedHost (keyField r)) (namedHost (keyField r'))) ∧
    (hostKey r ≠ [] → r.url ≠ [] → r'.url ≠ [] → SameHost (namedHost r.url) (namedHost r'.url))

theorem Agree.sameHost {r r' : ReconItem} (h : Agree r r') (hkey : hostKey r = hostKey r') :
    SameHost (namedHost (keyField r)) (namedHost (keyField r')) := by
  obtain ⟨⟨hr, hr'⟩ | hsame, -⟩ := h
  · rw [hr.namedHost_eq hr' hkey]
    exact SameHost.refl _
  · exact hsame

/-- Every host that was reported is named by a stored row, once no row went into a row of
another host. -/
theorem Traced.present {programId : String} {rows : List ReconItem} {p : Probing}
    (h : Traced programId (rows.zip p.targets) p) (hlength : p.targets.length = rows.length)
    (hapart : ∀ e ∈ rows.zip p.targets, ∀ e' ∈ rows.zip p.targets, e.2.row = e'.2.row →
      SameHosts e.1 e'.1) {r : ReconItem} (hr : r ∈ rows) {v : Text} (hv : v ∈ [r.url, r.host])
    (hne : v ≠ []) :
    ∃ x ∈ p.rows.map Stored.row, IsProbed programId x ∧ Names x (namedHost v) := by
  obtain ⟨t, he⟩ := exists_mem_zip hlength hr
  obtain ⟨x, hx, hprobed, -, hurl, hhost⟩ := h.own _ he
  refine ⟨x.row, List.mem_map_of_mem (List.mem_of_getElem? hx), hprobed, ?_⟩
  rcases List.mem_pair.mp hv with rfl | rfl
  · obtain ⟨e', he', hrow, hne', hfield⟩ := hurl ⟨_, he, rfl, hne⟩
    refine .inl ⟨hfield ▸ hne', ?_⟩
    rw [hfield]
    exact (hapart e' he' _ he hrow).2 hne' hne
  · obtain ⟨e', he', hrow, hne', hfield⟩ := hhost ⟨_, he, rfl, hne⟩
    refine .inr ⟨hfield ▸ hne', ?_⟩
    have hsame := (hapart e' he' _ he hrow).1
    have hkeyField : ∀ r : ReconItem, r.host ≠ [] → keyField r = r.host :=
      fun r hr => if_neg (by simpa using hr)
    rw [hkeyField _ hne', hkeyField _ hne] at hsame
    rwa [hfield]

variable [Sanitizer]

omit [Unicode] [Sanitizer] in
/-- A row of httpx with a URL and a host. -/
def probedRow (url host : String) : ReconItem :=
  { ReconItem.of "e1" "httpx" url.toList with host := host.toList }

end VardrMap.Imports
