import Mathlib.Data.List.ReduceOption
import VardrMap.Lib.Clients
import VardrMap.Radar

/-!
# What a refresh stores

A refresh looks every entry up among the rows that were stored. It keeps one program for each
identifier exactly when no platform lists an identifier twice that has no stored program yet.
-/
namespace VardrMap.Radar
open Lib

/-! ## The property -/

/-- At most one program for an owner, a platform and an identifier. -/
def StoredOnce (rows : List RadarProgram) : Prop := (rows.map RadarProgram.key).Nodup

/-- The program has the data of the entry. -/
def RadarProgram.Carries (r : RadarProgram) (now : Instant) (entry : Entry) : Prop :=
  r.name = entry.name ∧ r.url = entry.url ∧ r.maxPayout = entry.maxPayout ∧ r.lastFetchedAt = now

/-- Every entry has a program with its data, unless a later entry has the same identifier. -/
def Fetched (owner plat : String) (now : Instant) (entries : List Entry)
    (rows : List RadarProgram) : Prop :=
  ∀ before entry after, entries = before ++ entry :: after →
    (∀ e ∈ after, e.platformId ≠ entry.platformId) →
      ∃ r ∈ rows, r.key = (owner, plat, entry.platformId) ∧ r.Carries now entry

/-- An identifier without a stored program comes once. -/
def NewOnce (owner plat : String) (entries : List Entry) (rows : List RadarProgram) : Prop :=
  ∀ id, (owner, plat, id) ∉ rows.map RadarProgram.key →
    (entries.map Entry.platformId).count id ≤ 1

/-! ## Entries -/

section
variable [Unicode] {feed : Feed} {plat : String} {entries : List Entry}

/-- A listed URL is never empty. -/
theorem safeRadarUrl_ne_nil {raw : Json} {fallback url : Text}
    (h : safeRadarUrl raw fallback = .ok url) (hfallback : fallback ≠ []) : url ≠ [] := by
  rw [safeRadarUrl] at h
  split at h
  · rename_i validated _
    obtain rfl := Except.ok.inj h
    split
    · exact hfallback
    · rename_i hvalidated
      exact fun hnil => hvalidated (List.isEmpty_iff.mpr hnil)
  · obtain rfl := Except.ok.inj h
    exact hfallback
  · cases h

theorem entryOf_url {code name attrs : Json} {site urlField payout payout' : String} {entry : Entry}
    (h : entryOf code name attrs site urlField payout payout' = .ok entry)
    (hsite : site.toList ≠ []) : entry.url ≠ "" := by
  obtain ⟨raw, -, h⟩ := bind_eq_ok h
  obtain ⟨url, hurl, h⟩ := bind_eq_ok h
  obtain ⟨a, -, h⟩ := bind_eq_ok h
  obtain ⟨b, -, h⟩ := bind_eq_ok h
  obtain rfl := Except.ok.inj h
  have hne := safeRadarUrl_ne_nil hurl fun hnil => hsite (List.append_eq_nil_iff.mp hnil).1
  exact fun hempty => hne (by simpa using congrArg String.toList hempty)

omit [Unicode] in
/-- What a parser of programs returns has a URL when each program's entry has. -/
theorem url_of_mapM {entryOf : Json → Except Exn (Option Entry)} {programs : List Json}
    {listed : List (Option Entry)} (h : programs.mapM entryOf = .ok listed)
    (hentry : ∀ p entry, entryOf p = .ok (some entry) → entry.url ≠ "") :
    ∀ entry ∈ listed.reduceOption, entry.url ≠ "" := by
  intro entry hmem
  obtain ⟨p, -, hp⟩ := exists_of_mapM_eq_ok h (List.reduceOption_mem_iff.mp hmem)
  exact hentry p entry hp

theorem bugcrowdEntry_url {p : Json} {entry : Entry} (h : bugcrowdEntry p = .ok (some entry)) :
    entry.url ≠ "" := by
  obtain ⟨ids, -, h⟩ := bind_eq_ok h
  match ids, h with
  | none, h => cases h
  | some (code, name), h =>
    obtain ⟨e, he, h⟩ := bind_eq_ok h
    obtain rfl := Option.some.inj (Except.ok.inj h)
    exact entryOf_url he (by decide)

theorem hackeroneEntry_url {p : Json} {entry : Entry} (h : hackeroneEntry p = .ok (some entry)) :
    entry.url ≠ "" := by
  obtain ⟨ids, -, h⟩ := bind_eq_ok h
  match ids, h with
  | none, h => cases h
  | some (handle, name), h =>
    obtain ⟨attrs, -, h⟩ := bind_eq_ok h
    obtain ⟨e, he, h⟩ := bind_eq_ok h
    obtain rfl := Option.some.inj (Except.ok.inj h)
    exact entryOf_url he (by decide)

theorem fetchPlatform_url (h : fetchPlatform feed plat = .ok entries) :
    ∀ entry ∈ entries, entry.url ≠ "" := by
  obtain ⟨url, -, h⟩ := bind_eq_ok h
  split at h
  · cases h
  · cases h
  · obtain ⟨parse, hparse, h⟩ := bind_eq_ok h
    obtain ⟨before, after, hparsers, -⟩ := List.lookup_eq_some_iff.mp (found_eq_ok hparse)
    have hmem : (plat, parse) ∈ parsers :=
      hparsers ▸ List.mem_append_right _ (List.mem_cons_self ..)
    have hread := raise_eq_ok h
    simp only [parsers, List.mem_cons, List.not_mem_nil, or_false, Prod.mk.injEq] at hmem
    rcases hmem with ⟨-, rfl⟩ | ⟨-, rfl⟩
    · obtain ⟨programs, -, hread⟩ := bind_eq_ok hread
      obtain ⟨listed, hlisted, hread⟩ := bind_eq_ok hread
      obtain rfl := Except.ok.inj hread
      exact url_of_mapM hlisted fun _ _ => bugcrowdEntry_url
    · obtain ⟨programs, -, hread⟩ := bind_eq_ok hread
      obtain ⟨listed, hlisted, hread⟩ := bind_eq_ok hread
      obtain rfl := Except.ok.inj hread
      exact url_of_mapM hlisted fun _ _ => hackeroneEntry_url

end

/-- A created program has the data of its entry, and so has an updated one. -/
theorem carries_upsert {owner plat id : String} {now : Instant} {entry : Entry}
    (hurl : entry.url ≠ "") {r : RadarProgram} (h : r = (entry.upsert owner plat now id).create ∨
      ∃ x, r = (entry.upsert owner plat now id).update x) : r.Carries now entry := by
  rcases h with rfl | ⟨x, rfl⟩
  · exact ⟨rfl, rfl, rfl, rfl⟩
  · have hnot : ¬ entry.url.isEmpty = true := fun hempty => hurl (String.isEmpty_iff.mp hempty)
    exact ⟨rfl, if_neg hnot, rfl, rfl⟩

/-! ## The loops -/

/-- An entry of a platform, and the identifier drawn for it. -/
structure Drawn where
  plat : String
  entry : Entry
  id : String

def Drawn.upsert (owner : String) (now : Instant) (d : Drawn) : Upsert RadarProgram.key :=
  d.entry.upsert owner d.plat now d.id

theorem exists_drawn_foldl (feed : Feed) (owner plat : String) (s : Refresh)
    (entries : List Entry) : ∃ drawn : List Drawn,
      drawn.map (fun d => (d.plat, d.entry)) = entries.map (plat, ·) ∧
      (entries.foldl (storeEntry feed owner plat) s).rows =
        (drawn.map (Drawn.upsert owner feed.now)).foldl Pending.upsert s.rows := by
  induction entries generalizing s with
  | nil => exact ⟨[], rfl, rfl⟩
  | cons entry entries ih =>
    obtain ⟨drawn, hdrawn, hrows⟩ := ih (storeEntry feed owner plat s entry)
    refine ⟨⟨plat, entry, feed.newId s.totalNew⟩ :: drawn, ?_, ?_⟩
    · rw [List.map_cons, List.map_cons, hdrawn]
    · rw [List.foldl_cons, hrows, List.map_cons, List.foldl_cons]
      congr 1
      rw [storeEntry]
      split <;> rfl

variable [Unicode] {feed : Feed} {owner : String} {platforms : List String} {s s' : Refresh}

/-- The entries of a platform, none when the fetch fails. -/
def fetched (feed : Feed) (plat : String) : List Entry :=
  (fetchPlatform feed plat).toOption.getD []

theorem exists_drawn (h : platforms.foldlM (storePlatform feed owner) s = .ok s') :
    (∀ plat ∈ platforms, fetchPlatform feed plat = .ok (fetched feed plat)) ∧
    ∃ drawn : List Drawn, drawn.map (fun d => (d.plat, d.entry)) =
        platforms.flatMap (fun plat => (fetched feed plat).map (plat, ·)) ∧
      s'.rows = (drawn.map (Drawn.upsert owner feed.now)).foldl Pending.upsert s.rows := by
  induction platforms generalizing s with
  | nil =>
    obtain rfl := Except.ok.inj h
    exact ⟨nofun, [], rfl, rfl⟩
  | cons plat platforms ih =>
    obtain ⟨s₁, hplat, h⟩ := bind_eq_ok h
    obtain ⟨entries, hentries, hplat⟩ := bind_eq_ok hplat
    obtain rfl := Except.ok.inj hplat
    obtain ⟨hok, drawn, hdrawn, hrows⟩ := ih h
    obtain ⟨first, hfirst, hstored⟩ := exists_drawn_foldl feed owner plat s entries
    have hfetched : fetched feed plat = entries := by
      rw [fetched, hentries]
      rfl
    refine ⟨List.forall_mem_cons.mpr ⟨hfetched ▸ hentries, hok⟩, first ++ drawn, ?_, ?_⟩
    · rw [List.map_append, hfirst, hdrawn, List.flatMap_cons, hfetched]
    · rw [hrows, hstored, List.map_append, List.foldl_append]

/-! ## Keys -/

/-- The keys that are looked up. -/
theorem target_drawn {drawn : List Drawn} (hdrawn : drawn.map (fun d => (d.plat, d.entry)) =
      platforms.flatMap fun plat => (fetched feed plat).map (plat, ·)) (now : Instant) :
    (drawn.map (Drawn.upsert owner now)).map Upsert.target =
      platforms.flatMap fun plat =>
        (fetched feed plat).map fun entry => (owner, plat, entry.platformId) := by
  have hmap := congrArg (List.map fun d : String × Entry => (owner, d.1, d.2.platformId)) hdrawn
  rw [List.map_map, List.map_flatMap] at hmap
  simp only [List.map_map] at hmap ⊢
  exact hmap

omit [Unicode] in
/-- The keys of one platform that are not stored are distinct exactly when each comes once. -/
theorem nodup_keys_iff {plat : String} {entries : List Entry} {rows : List RadarProgram} :
    ((entries.map fun entry => (owner, plat, entry.platformId)).filter fun k =>
        !Pending.finds RadarProgram.key ⟨rows, []⟩ k).Nodup ↔ NewOnce owner plat entries rows := by
  have hkeys : (entries.map fun entry => (owner, plat, entry.platformId)) =
      (entries.map Entry.platformId).map fun id => (owner, plat, id) := by
    rw [List.map_map]
    rfl
  have hinj : Function.Injective fun id : String => (owner, plat, id) := fun _ _ h =>
    (Prod.mk.inj (Prod.mk.inj h).2).2
  rw [hkeys, List.filter_map, List.nodup_map_iff hinj, List.nodup_iff_count_le_one]
  refine forall_congr' fun id => ?_
  by_cases hstored : (owner, plat, id) ∈ rows.map RadarProgram.key
  · have hnone : ((entries.map Entry.platformId).filter ((fun k =>
        !Pending.finds RadarProgram.key ⟨rows, []⟩ k) ∘ fun id => (owner, plat, id))).count id = 0 := by
      rw [List.count_eq_zero]
      intro hmem
      have hnot := (List.mem_filter.mp hmem).2
      rw [Function.comp_apply, Pending.finds_iff.mpr hstored] at hnot
      cases hnot
    exact ⟨fun _ hnew => absurd hstored hnew, fun _ => hnone ▸ Nat.zero_le 1⟩
  · have hnot : ((fun k => !Pending.finds RadarProgram.key ⟨rows, []⟩ k) ∘
        fun id => (owner, plat, id)) id = true := by
      rw [Function.comp_apply, Bool.not_eq_true', Bool.eq_false_iff]
      exact fun hfound => hstored (Pending.finds_iff.mp hfound)
    rw [List.count_filter hnot]
    exact ⟨fun h _ => h, fun h => h hstored⟩

/-- The keys of different platforms are different. -/
theorem nodup_requested_iff {rows : List RadarProgram} (hplatforms : platforms.Nodup) :
    ((platforms.flatMap fun plat =>
        (fetched feed plat).map fun entry => (owner, plat, entry.platformId)).filter fun k =>
          !Pending.finds RadarProgram.key ⟨rows, []⟩ k).Nodup ↔
      ∀ plat ∈ platforms, NewOnce owner plat (fetched feed plat) rows := by
  rw [List.filter_flatMap, List.nodup_flatMap]
  refine ⟨fun ⟨h, _⟩ plat hplat => nodup_keys_iff.mp (h plat hplat), fun h =>
    ⟨fun plat hplat => nodup_keys_iff.mpr (h plat hplat), hplatforms.imp fun {a b} hab => ?_⟩⟩
  intro k ha hb
  obtain ⟨e, -, rfl⟩ := List.mem_map.mp (List.mem_filter.mp ha).1
  obtain ⟨e', -, heq⟩ := List.mem_map.mp (List.mem_filter.mp hb).1
  exact hab (Prod.mk.inj (Prod.mk.inj heq).2).1.symm

/-- The last entry of an identifier is what the session has under it. -/
theorem fetched_rows (h : platforms.foldlM (storePlatform feed owner) s = .ok s')
    (hplatforms : platforms.Nodup) {plat : String} (hplat : plat ∈ platforms) :
    Fetched owner plat feed.now (fetched feed plat) s'.rows.rows := by
  intro before entry after hentries hlast
  obtain ⟨hok, drawn, hdrawn, hrows⟩ := exists_drawn h
  obtain ⟨front, back, rfl⟩ := List.append_of_mem hplat
  rw [List.flatMap_append, List.flatMap_cons, hentries, List.map_append, List.map_cons,
    ← List.append_assoc, ← List.append_assoc, List.append_assoc _ _ (List.flatMap _ _),
    List.cons_append] at hdrawn
  obtain ⟨drawnBefore, rest, rfl, -, hrest⟩ := List.map_eq_append_iff.mp hdrawn
  obtain ⟨d, drawnAfter, rfl, hd, hafter⟩ := List.map_eq_cons_iff.mp hrest
  obtain ⟨rfl, rfl⟩ := Prod.mk.inj hd
  have hlater : ∀ u ∈ drawnAfter.map (Drawn.upsert owner feed.now),
      u.target ≠ (d.upsert owner feed.now).target := by
    intro u hu heq
    obtain ⟨d', hd', rfl⟩ := List.mem_map.mp hu
    have hmem : (d'.plat, d'.entry) ∈ after.map (d.plat, ·) ++
        back.flatMap fun plat => (fetched feed plat).map (plat, ·) :=
      hafter ▸ List.mem_map_of_mem (f := fun d => (d.plat, d.entry)) hd'
    obtain ⟨-, hsame⟩ := Prod.mk.inj heq
    obtain ⟨hplat', hid⟩ := Prod.mk.inj hsame
    rcases List.mem_append.mp hmem with hmem | hmem
    · obtain ⟨e, he, hpair⟩ := List.mem_map.mp hmem
      exact hlast e he ((congrArg Entry.platformId (Prod.mk.inj hpair).2).trans hid)
    · obtain ⟨plat', hback, hmem⟩ := List.mem_flatMap.mp hmem
      obtain ⟨e, -, hpair⟩ := List.mem_map.mp hmem
      have hsamePlat : plat' = d.plat := (Prod.mk.inj hpair).1.trans hplat'
      have hnotMem : d.plat ∉ back := (List.nodup_cons.mp (List.nodup_append.mp hplatforms).2.1).1
      exact hnotMem (hsamePlat ▸ hback)
  obtain ⟨r, hr, hkey, hasked⟩ := Pending.exists_of_last s.rows _ _ _ hlater
  refine ⟨r, ?_, hkey, carries_upsert ?_ hasked⟩
  · rw [hrows, List.map_append, List.map_cons]
    exact hr
  · exact fetchPlatform_url (hok _ hplat) d.entry (hentries ▸ List.mem_append_right _
      (List.mem_cons_self ..))

/-! ## The refresh -/

variable {identity : Identity} {request : HttpRequest} {platform : Option String}
  {stored stored' : Stored} {response : RefreshResponse} {user : User}

omit [Unicode] in
theorem nodup_requested (platform : Option String) : (requested platform).Nodup := by
  have hsources : (sources.map Prod.fst).Nodup := by decide
  cases platform with
  | none => exact hsources
  | some p =>
    rw [requested]
    split
    · exact hsources
    · exact List.nodup_singleton p

omit [Unicode] in
/-- What is written is what the session has. -/
theorem commit_rows {programs : Table RadarProgram} {session : Pending RadarProgram}
    (h : commit feed stored.programs session = .ok programs) : programs.rows = session.rows := by
  rw [commit] at h
  split at h
  · split at h
    · obtain rfl := Except.ok.inj h
      rfl
    · cases h
  · cases h

/-- What a refresh that is not refused has stored. -/
theorem refreshRadar_eq_ok (huser : getCurrentUser identity stored.db request = .ok user)
    (h : refreshRadar identity feed request platform stored = .ok (stored', response)) :
    ∃ session : Refresh, (requested platform).foldlM (storePlatform feed user.githubId)
        ⟨⟨stored.programs.rows, []⟩, 0, 0⟩ = .ok session ∧
      stored'.programs.rows = session.rows.rows ∧ stored'.db = stored.db := by
  obtain ⟨user', huser', h⟩ := bind_eq_ok h
  obtain rfl := Except.ok.inj (huser.symm.trans huser')
  obtain ⟨_, _, h⟩ := bind_eq_ok h
  obtain ⟨session, hsession, h⟩ := bind_eq_ok h
  obtain ⟨programs, hprograms, h⟩ := bind_eq_ok h
  obtain ⟨rfl, -⟩ := Prod.mk.inj (Except.ok.inj h)
  exact ⟨session, hsession, commit_rows hprograms, rfl⟩

theorem storedOnce_refresh_iff (hstored : StoredOnce stored.programs.rows)
    (huser : getCurrentUser identity stored.db request = .ok user)
    (h : refreshRadar identity feed request platform stored = .ok (stored', response)) :
    StoredOnce stored'.programs.rows ↔ ∀ plat ∈ requested platform, ∀ entries,
      fetchPlatform feed plat = .ok entries →
        NewOnce user.githubId plat entries stored.programs.rows := by
  obtain ⟨session, hsession, hrows, -⟩ := refreshRadar_eq_ok huser h
  obtain ⟨hok, drawn, hdrawn, hfolded⟩ := exists_drawn hsession
  rw [StoredOnce, hrows, hfolded, Pending.nodup_rows_iff, target_drawn hdrawn,
    nodup_requested_iff (nodup_requested platform)]
  refine (and_iff_right hstored).trans (forall₂_congr fun plat hplat =>
    ⟨fun hnew entries hfetch => ?_, fun hnew => ?_⟩)
  · rw [← Except.ok.inj ((hok plat hplat).symm.trans hfetch)]
    exact hnew
  · exact hnew _ (hok plat hplat)

theorem fetched_refresh (huser : getCurrentUser identity stored.db request = .ok user)
    (h : refreshRadar identity feed request platform stored = .ok (stored', response)) :
    ∀ plat ∈ requested platform, ∀ entries, fetchPlatform feed plat = .ok entries →
      Fetched user.githubId plat feed.now entries stored'.programs.rows := by
  intro plat hplat entries hfetch
  obtain ⟨session, hsession, hrows, -⟩ := refreshRadar_eq_ok huser h
  have hentries := Except.ok.inj (((exists_drawn hsession).1 plat hplat).symm.trans hfetch)
  rw [hrows, ← hentries]
  exact fetched_rows hsession (nodup_requested platform) hplat

/-- A refresh leaves one program for each identifier, with the data that was fetched, exactly when
no response repeats an identifier that has no stored program. -/
theorem refresh_stores_once_iff (hstored : StoredOnce stored.programs.rows)
    (huser : getCurrentUser identity stored.db request = .ok user)
    (h : refreshRadar identity feed request platform stored = .ok (stored', response)) :
    (StoredOnce stored'.programs.rows ∧ ∀ plat ∈ requested platform, ∀ entries,
      fetchPlatform feed plat = .ok entries →
        Fetched user.githubId plat feed.now entries stored'.programs.rows) ↔
    ∀ plat ∈ requested platform, ∀ entries, fetchPlatform feed plat = .ok entries →
      NewOnce user.githubId plat entries stored.programs.rows := by
  constructor
  · intro ⟨honce, _⟩
    exact (storedOnce_refresh_iff hstored huser h).mp honce
  · intro hnew
    exact ⟨(storedOnce_refresh_iff hstored huser h).mpr hnew, fetched_refresh huser h⟩

/-! ## Runs -/

/-- A request for the radar. -/
inductive Call where
  | list (request : HttpRequest) (platform : Option String)
  | refresh (feed : Feed) (request : HttpRequest) (platform : Option String)

/-- The stored state after a request that is not refused. -/
def next (identity : Identity) (s : Stored) : Call → Option Stored
  | .list request platform => ((listRadar identity request platform s).map Prod.fst).toOption
  | .refresh feed request platform =>
    ((refreshRadar identity feed request platform s).map Prod.fst).toOption

/-- The responses repeat no identifier that is new. -/
def Plain (identity : Identity) (s : Stored) : Call → Prop
  | .list _ _ => True
  | .refresh feed request platform => ∀ user, getCurrentUser identity s.db request = .ok user →
    ∀ plat ∈ requested platform, ∀ entries, fetchPlatform feed plat = .ok entries →
      NewOnce user.githubId plat entries s.programs.rows

omit [Unicode] in
theorem show_key (owner : String) (platform : Option String) (r : RadarProgram) :
    (r.show owner platform).key = r.key := by
  rw [RadarProgram.show, RadarProgram.seen]
  split
  · split <;> rfl
  · rfl

theorem keys_listRadar {listing : RadarListing}
    (h : listRadar identity request platform stored = .ok (stored', listing)) :
    stored'.programs.rows.map RadarProgram.key = stored.programs.rows.map RadarProgram.key := by
  obtain ⟨user, -, h⟩ := bind_eq_ok h
  obtain ⟨rfl, -⟩ := Prod.mk.inj (Except.ok.inj h)
  exact (List.map_map ..).trans (List.map_congr_left fun r _ => show_key user.githubId platform r)

omit [Unicode] in
theorem eq_ok_of_toOption {α β : Type} {x : Except Refusal (α × β)} {a : α}
    (h : (x.map Prod.fst).toOption = some a) : ∃ b, x = .ok (a, b) := by
  cases x with
  | error e => cases h
  | ok r =>
    obtain rfl := Option.some.inj h
    exact ⟨r.2, rfl⟩

/-- One program for each identifier is stored throughout, as long as no response repeats an
identifier that is new. -/
theorem storedOnce_of_run {calls : List Call}
    (h : Lib.Run (Taken (next identity) (Plain identity)) stored calls stored')
    (hstored : StoredOnce stored.programs.rows) : StoredOnce stored'.programs.rows := by
  refine h.invariant (fun s : Stored => StoredOnce s.programs.rows) (fun {s t _} hs hstep => ?_)
    hstored
  obtain ⟨hnext, hplain⟩ := hstep
  rename_i call
  cases call with
  | list request platform =>
    obtain ⟨listing, hlist⟩ := eq_ok_of_toOption hnext
    rw [StoredOnce, keys_listRadar hlist]
    exact hs
  | refresh feed request platform =>
    obtain ⟨response, hrefresh⟩ := eq_ok_of_toOption hnext
    obtain ⟨user, huser, -⟩ := bind_eq_ok hrefresh
    exact (storedOnce_refresh_iff hs huser hrefresh).mpr (hplain user huser)

/-! ## Examples -/

omit [Unicode] in
/-- A caller with a session. -/
def exampleIdentity : Identity where
  configured := true
  resolveSession _ := .ok ⟨"u1", "full", some "local"⟩
  resolveJwt _ := .error (.http 401 "Unauthorized")

omit [Unicode] in
/-- Every platform lists the programs of these codes. -/
def listing (codes : List String) : Feed where
  get _ := .ok (.arr (codes.map fun code => .obj [("code", .str code)]))
  newId n := if n = 0 then "r1" else if n = 1 then "r2" else "r3"
  now := 7
  accepts _ := true

omit [Unicode] in
/-- The caller has refreshed the radar once. -/
def exampleStored : Stored where
  db := Db.empty
  programs := .single {
    id := "r0", ownerGithubId := "u1", platform := "bugcrowd", platformId := "acme"
    name := "Acme", url := "https://bugcrowd.com/acme", maxPayout := .null, isNew := "0"
    discoveredAt := 3, lastFetchedAt := 3 }

omit [Unicode] in
/-- The stored program is listed twice, and a new one once. -/
theorem refresh_stores_once_iff_example : ∃ stored' response,
    @refreshRadar Unicode.ascii exampleIdentity (listing ["acme", "beta", "acme"])
      ⟨none, some "session"⟩ (some "bugcrowd") exampleStored = .ok (stored', response) ∧
    ((StoredOnce stored'.programs.rows ∧ ∀ plat ∈ requested (some "bugcrowd"), ∀ entries,
      @fetchPlatform Unicode.ascii (listing ["acme", "beta", "acme"]) plat = .ok entries →
        Fetched "u1" plat 7 entries stored'.programs.rows) ↔
    ∀ plat ∈ requested (some "bugcrowd"), ∀ entries,
      @fetchPlatform Unicode.ascii (listing ["acme", "beta", "acme"]) plat = .ok entries →
        NewOnce "u1" plat entries exampleStored.programs.rows) := by
  let _ := Unicode.ascii
  have hok : (refreshRadar exampleIdentity (listing ["acme", "beta", "acme"])
      ⟨none, some "session"⟩ (some "bugcrowd") exampleStored).isOk = true := by decide +kernel
  match h : refreshRadar exampleIdentity (listing ["acme", "beta", "acme"])
      ⟨none, some "session"⟩ (some "bugcrowd") exampleStored with
  | .ok (stored', response) =>
    have huser : getCurrentUser exampleIdentity exampleStored.db ⟨none, some "session"⟩ =
        .ok ⟨"u1", "full", some "local"⟩ := rfl
    have hstored : StoredOnce exampleStored.programs.rows := List.nodup_singleton _
    exact ⟨stored', response, rfl, refresh_stores_once_iff hstored huser h⟩
  | .error e =>
    rw [h] at hok
    cases hok

omit [Unicode] in
/-- A program that is new and listed twice is stored twice. -/
theorem repeated_program_stored_twice : StoredOnce [] ∧ ∃ stored' response,
    @refreshRadar Unicode.ascii exampleIdentity (listing ["acme", "acme"])
      ⟨none, some "session"⟩ (some "bugcrowd") ⟨Db.empty, .empty⟩ = .ok (stored', response) ∧
    ¬ StoredOnce stored'.programs.rows := by
  let _ := Unicode.ascii
  refine ⟨List.nodup_nil, ?_⟩
  have hkeys : (refreshRadar exampleIdentity (listing ["acme", "acme"]) ⟨none, some "session"⟩
      (some "bugcrowd") ⟨Db.empty, .empty⟩).toOption.map (fun r =>
        r.1.programs.rows.map RadarProgram.key) =
      some [("u1", "bugcrowd", "acme"), ("u1", "bugcrowd", "acme")] := by decide +kernel
  match h : refreshRadar exampleIdentity (listing ["acme", "acme"]) ⟨none, some "session"⟩
      (some "bugcrowd") ⟨Db.empty, .empty⟩ with
  | .ok (stored', response) =>
    rw [h] at hkeys
    have hrows : stored'.programs.rows.map RadarProgram.key =
        [("u1", "bugcrowd", "acme"), ("u1", "bugcrowd", "acme")] := Option.some.inj hkeys
    refine ⟨stored', response, rfl, ?_⟩
    rw [StoredOnce, hrows]
    decide
  | .error e =>
    rw [h] at hkeys
    cases hkeys

end VardrMap.Radar
