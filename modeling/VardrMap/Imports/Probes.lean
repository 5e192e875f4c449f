import VardrMap.Imports

/-!
# The rows of probed hosts

The httpx importer looks a host up in an index over the stored rows. The index points at rows
of the host it is asked for, and knows the host of every row of the source: what a probe does
to the rows keeps both, since a row keeps its host when it takes up what a probe of that host
has found.
-/
namespace VardrMap.Imports
open Lib Assets Parsers
variable [Unicode]

/-- A row of httpx in an engagement. -/
def IsProbed (programId : String) (r : ReconItem) : Prop :=
  r.programId = programId ∧ r.source = "httpx"

omit [Unicode] in
/-- What stands in a list stays where it is when the list grows. -/
theorem getElem?_append_of_eq_some {α : Type} {l : List α} {n : ℕ} {a : α} (h : l[n]? = some a)
    (l' : List α) : (l ++ l')[n]? = some a := by
  rw [List.getElem?_append_left (List.getElem?_eq_some_iff.mp h).1, h]

/-- An index over rows by their host. -/
structure Indexed (programId : String) (rows : List (Stored ReconItem)) (index : Dict Text ℕ) :
    Prop where
  points : ∀ h n, index h = some n →
    ∃ x, rows[n]? = some x ∧ IsProbed programId x.row ∧ hostKey x.row = h
  knows : ∀ x ∈ rows, IsProbed programId x.row → hostKey x.row ≠ [] →
    (index (hostKey x.row)).isSome = true
  noHost : index [] = none

namespace Indexed
variable {programId : String} {rows : List (Stored ReconItem)} {index : Dict Text ℕ}

theorem empty : Indexed programId [] .empty where
  points _ _ h := by cases h
  knows _ h := by cases h
  noHost := rfl

/-- A row that needs no entry. -/
theorem append (hindex : Indexed programId rows index) {x : Stored ReconItem}
    (hx : IsProbed programId x.row → hostKey x.row ≠ [] →
      (index (hostKey x.row)).isSome = true) : Indexed programId (rows ++ [x]) index where
  points h n hn := by
    obtain ⟨y, hy, hprobed⟩ := hindex.points h n hn
    exact ⟨y, getElem?_append_of_eq_some hy _, hprobed⟩
  knows y hy := by
    rcases List.mem_append.mp hy with hy | hy
    · exact hindex.knows y hy
    · rw [List.mem_singleton.mp hy]
      exact hx
  noHost := hindex.noHost

/-- A row of a host of its own. -/
theorem append_set (hindex : Indexed programId rows index) {x : Stored ReconItem}
    (hx : IsProbed programId x.row) (hhost : hostKey x.row ≠ []) :
    Indexed programId (rows ++ [x]) (index.set (hostKey x.row) rows.length) where
  points h n hn := by
    rw [Dict.set_apply] at hn
    split at hn
    · rename_i hkey
      obtain rfl := Option.some.inj hn
      exact ⟨x, by simp, hx, hkey.symm⟩
    · obtain ⟨y, hy, hprobed⟩ := hindex.points h n hn
      exact ⟨y, getElem?_append_of_eq_some hy _, hprobed⟩
  knows y hy hprobed hne := by
    rw [Dict.set_apply]
    split
    · rfl
    · rcases List.mem_append.mp hy with hy | hy
      · exact hindex.knows y hy hprobed hne
      · rename_i hkey
        exact absurd (by rw [List.mem_singleton.mp hy]) hkey
  noHost := by rw [Dict.set_ne (Ne.symm hhost), hindex.noHost]

/-- A row that changes and keeps its host. -/
theorem set (hindex : Indexed programId rows index) {n : ℕ} {x y : Stored ReconItem}
    (hn : rows[n]? = some x) (hprobed : IsProbed programId y.row ↔ IsProbed programId x.row)
    (hhost : hostKey y.row = hostKey x.row) : Indexed programId (rows.set n y) index where
  points h m hm := by
    obtain ⟨z, hz, hz'⟩ := hindex.points h m hm
    by_cases hnm : n = m
    · subst hnm
      rw [hn] at hz
      obtain rfl := Option.some.inj hz
      have hlt : n < rows.length := (List.getElem?_eq_some_iff.mp hn).1
      exact ⟨y, by simp [hlt], hprobed.mpr hz'.1, hhost.trans hz'.2⟩
    · exact ⟨z, by rwa [List.getElem?_set_ne hnm], hz'⟩
  knows z hz hz' hne := by
    rcases List.mem_or_eq_of_mem_set hz with hz | rfl
    · exact hindex.knows z hz hz' hne
    · rw [hhost] at hne ⊢
      exact hindex.knows x (List.mem_of_getElem? hn) (hprobed.mp hz') hne
  noHost := hindex.noHost

/-- Different hosts are found in different rows. -/
theorem inj (hindex : Indexed programId rows index) {h h' : Text} {n : ℕ}
    (hh : index h = some n) (hh' : index h' = some n) : h = h' := by
  obtain ⟨x, hx, -, hxh⟩ := hindex.points h n hh
  obtain ⟨x', hx', -, hxh'⟩ := hindex.points h' n hh'
  rw [hx] at hx'
  rw [← hxh, ← hxh', Option.some.inj hx']

/-- The stored rows are indexed by the first of each host. -/
theorem byHost_append {rows' : List (Stored ReconItem)} (hindex : Indexed programId rows index) :
    Indexed programId (rows ++ rows') (byHost programId rows.length rows' index) := by
  induction rows' generalizing rows index with
  | nil => simpa [byHost] using hindex
  | cons x rows' ih =>
    have hlength : rows.length + 1 = (rows ++ [x]).length := by simp
    rw [byHost, hlength, List.append_cons]
    apply ih
    split
    · rename_i hx
      simp only [Bool.and_eq_true, beq_iff_eq, Bool.not_eq_true', List.isEmpty_eq_false_iff] at hx
      unfold Dict.setDefault
      split
      · exact hindex.append fun _ _ => ‹_›
      · exact hindex.append_set hx.1 hx.2
    · rename_i hx
      simp only [Bool.and_eq_true, beq_iff_eq, Bool.not_eq_true', List.isEmpty_eq_false_iff] at hx
      exact hindex.append fun hprobed hne => absurd ⟨hprobed, hne⟩ hx

end Indexed

/-! ## One probe -/

/-- A row keeps its host when it takes up a probe of that host. -/
theorem hostKey_enrich {stored item : ReconItem} (h : hostKey stored = hostKey item) :
    hostKey (enrich stored item) = hostKey item := by
  unfold hostKey keyField enrich enriched at *
  dsimp only
  by_cases hhost : item.host.isEmpty = true
  · rw [if_pos hhost] at h ⊢
    rw [if_pos hhost]
    by_cases hstored : stored.host.isEmpty = true
    · rw [if_pos hstored] at h ⊢
      split
      · exact h
      · rfl
    · rw [if_neg hstored] at h ⊢
      exact h
  · simp [hhost]

/-- Linking leaves a row as it is. -/
theorem linkOne_row {c : Context} {assets assets' : List Asset} {x y : Stored ReconItem}
    (h : linkOne c assets x = .ok (assets', y)) : y.row = x.row := by
  unfold linkOne at h
  split at h
  · cases h
    rfl
  · obtain ⟨⟨assets₁, id⟩, -, h⟩ := bind_eq_ok h
    cases h
    rfl

/-- What a probe does: it writes into the row of its host, or stores a new one. -/
theorem probe_eq_ok {c : Context} {p p' : Probing} {item : ReconItem}
    (hindex : Indexed c.programId p.rows p.byHost) (h : probe c p item = .ok p') :
    (∃ n x y, p.byHost (hostKey item) = some n ∧ p.rows[n]? = some x ∧
        y.row = enrich x.row item ∧ p'.rows = p.rows.set n y ∧ p'.byHost = p.byHost ∧
          p'.targets = p.targets ++ [⟨n, false⟩]) ∨
      p.byHost (hostKey item) = none ∧
        (∃ x : Stored ReconItem, x.row = item ∧ p'.rows = p.rows ++ [x]) ∧
          p'.byHost = (if hostKey item = [] then p.byHost
            else p.byHost.set (hostKey item) p.rows.length) ∧
              p'.targets = p.targets ++ [⟨p.rows.length, true⟩] := by
  unfold probe at h
  have hlookup : (if (hostKey item).isEmpty then none else p.byHost (hostKey item)) =
      p.byHost (hostKey item) := by
    split
    · rename_i hempty
      rw [List.isEmpty_iff.mp hempty, hindex.noHost]
    · rfl
  simp only [hlookup] at h
  cases hn : p.byHost (hostKey item) with
  | none =>
    rw [hn] at h
    cases h
    exact .inr ⟨rfl, ⟨_, rfl, rfl⟩, by simp only [List.isEmpty_iff], rfl⟩
  | some n =>
    obtain ⟨x, hx, -⟩ := hindex.points _ n hn
    rw [hn, Option.bind_some, hx] at h
    obtain ⟨⟨assets, y⟩, hlink, h⟩ := bind_eq_ok h
    cases h
    exact .inl ⟨n, x, y, rfl, hx, linkOne_row hlink, rfl, rfl, rfl⟩

/-- A probe keeps the index. -/
theorem Indexed.probe {c : Context} {p p' : Probing} {item : ReconItem}
    (hindex : Indexed c.programId p.rows p.byHost) (hitem : IsProbed c.programId item)
    (h : probe c p item = .ok p') : Indexed c.programId p'.rows p'.byHost := by
  obtain ⟨n, x, y, hn, hx, hy, hrows, hbyHost, -⟩ | ⟨hn, ⟨x, hx, hrows⟩, hbyHost, -⟩ :=
    probe_eq_ok hindex h
  · obtain ⟨z, hz, hprobed, hhost⟩ := hindex.points _ n hn
    obtain rfl := Option.some.inj (hx.symm.trans hz)
    rw [hrows, hbyHost]
    refine hindex.set hx ?_ ?_
    · rw [hy]
      rfl
    · rw [hy, hostKey_enrich hhost, hhost]
  · rw [hrows, hbyHost]
    split
    · rename_i hempty
      exact hindex.append fun _ hne => absurd (hx ▸ hempty) hne
    · rename_i hne
      rw [← hx] at hitem hne ⊢
      exact hindex.append_set hitem hne

/-! ## All probes -/

omit [Unicode] in
/-- What every step of a loop keeps, of the elements gone through and of the state, holds after
the loop. -/
theorem foldlM_induction {ε α β : Type} {f : β → α → Except ε β} {P : List α → β → Prop}
    {done l : List α} {b b' : β} (h : l.foldlM f b = .ok b') (hinit : P done b)
    (hstep : ∀ done a b b', a ∈ l → P done b → f b a = .ok b' → P (done ++ [a]) b') :
    P (done ++ l) b' := by
  induction l generalizing done b with
  | nil =>
    obtain rfl : b = b' := Except.ok.inj h
    rwa [List.append_nil]
  | cons a l ih =>
    rw [List.foldlM_cons] at h
    obtain ⟨b₁, hb₁, h⟩ := bind_eq_ok h
    rw [List.append_cons]
    exact ih h (hstep _ _ _ _ List.mem_cons_self hinit hb₁) fun done a' b b' ha' =>
      hstep done a' b b' (List.mem_cons_of_mem _ ha')

/-- The state before the first probe. -/
def probing (c : Context) (s : Store) : Probing :=
  ⟨s.recon, s.assets, byHost c.programId 0 s.recon .empty, []⟩

theorem indexed_probing (c : Context) (s : Store) :
    Indexed c.programId (probing c s).rows (probing c s).byHost :=
  Indexed.empty.byHost_append

/-- All probes keep the index. -/
theorem Indexed.probeAll {c : Context} {items : List ReconItem} {s : Store} {p : Probing}
    (hitems : ∀ item ∈ items, IsProbed c.programId item) (hall : probeAll c items s = .ok p) :
    Indexed c.programId p.rows p.byHost :=
  @foldlM_induction _ _ _ _ (fun _ p => Indexed c.programId p.rows p.byHost) [] _ _ _ hall
    (indexed_probing c s) fun _ _ _ _ hitem hindex hstep => hindex.probe (hitems _ hitem) hstep

/-- The links at the end leave the rows as they are. -/
theorem linkProbed_rows {c : Context} {items : List ReconItem} {targets : List Target}
    {rows rows' : List (Stored ReconItem)} {assets assets' : List Asset}
    (h : linkProbed c items targets rows assets = .ok (rows', assets')) :
    rows'.map Stored.row = rows.map Stored.row := by
  induction items generalizing targets rows assets with
  | nil =>
    cases h
    rfl
  | cons item items ih =>
    cases targets with
    | nil =>
      cases h
      rfl
    | cons target targets =>
      rw [linkProbed] at h
      split at h
      · split at h
        · rename_i x hx
          obtain ⟨⟨assets₁, y⟩, hlink, h⟩ := bind_eq_ok h
          obtain ⟨hlt, hget⟩ := List.getElem?_eq_some_iff.mp hx
          rw [ih h, ← List.set_getElem_self hlt, List.map_set, List.map_set, linkOne_row hlink, hget]
          simp
        · exact ih h
      · obtain ⟨⟨assets₁, id⟩, -, h⟩ := bind_eq_ok h
        exact ih h

/-- The rows after an import are those that the probes have left. -/
theorem upsertReconHttpx_eq_ok {c : Context} {items : List ReconItem} {s : Store}
    {result : Store × ℕ} (h : upsertReconHttpx c items s = .ok result) :
    ∃ p, probeAll c items s = .ok p ∧
      result.1.recon.map Stored.row = p.rows.map Stored.row ∧ result.1.scan = s.scan := by
  obtain ⟨p, hp, h⟩ := bind_eq_ok h
  obtain ⟨⟨recon, assets⟩, hlink, h⟩ := bind_eq_ok h
  cases h
  exact ⟨p, hp, linkProbed_rows hlink, rfl⟩

/-- Parsed rows name their engagement and tool. -/
theorem parseHttpx_source [Sanitizer] {items : List Item} {programId : String} {rows : List ReconItem}
    (h : parseHttpx items programId = .ok rows) : ∀ r ∈ rows, IsProbed programId r := by
  intro r hr
  obtain ⟨item, -, hitem⟩ := exists_of_mapM_eq_ok h hr
  obtain ⟨title, -, hitem⟩ := bind_eq_ok hitem
  obtain ⟨webserver, -, hitem⟩ := bind_eq_ok hitem
  obtain ⟨contentType, -, hitem⟩ := bind_eq_ok hitem
  cases hitem
  exact ⟨rfl, rfl⟩

end VardrMap.Imports
