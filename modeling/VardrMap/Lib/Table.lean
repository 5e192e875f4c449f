import Mathlib.Data.List.Nodup
import Mathlib.Data.List.Count

/-!
# Keyed tables

A table is a list of rows without two rows of one key. Rows are read by key, inserted
under a new key, replaced under their key, and deleted. The lemmas say what each
operation leaves under a key, and how it changes the number of rows with a property.
-/
namespace Lib

/-- The key of a row. -/
class Keyed (α : Type) (κ : outParam Type) where
  key : α → κ

open Keyed (key)

variable {α κ : Type} [DecidableEq κ] [Keyed α κ]

/-- Rows with distinct keys. -/
structure Table (α : Type) {κ : Type} [Keyed α κ] where
  rows : List α
  nodup : (rows.map key).Nodup

namespace Table

def empty : Table α := ⟨[], List.nodup_nil⟩

omit [DecidableEq κ] in
/-- A table of one row. -/
def single (r : α) : Table α := ⟨[r], List.nodup_singleton _⟩

/-- The row under a key. -/
def get? (t : Table α) (k : κ) : Option α := t.rows.find? fun r => key r = k

/-- Replace the row under the key of `r`; without one nothing changes. -/
def put (t : Table α) (r : α) : Table α where
  rows := t.rows.map fun x => if key x = key r then r else x
  nodup := by
    have h : (t.rows.map fun x => if key x = key r then r else x).map key = t.rows.map key := by
      rw [List.map_map]
      refine List.map_congr_left fun x _ => ?_
      simp only [Function.comp_apply]
      split
      · rename_i hx
        exact hx.symm
      · rfl
    rw [h]
    exact t.nodup

/-- Add a row under a new key; a taken key is refused. -/
def insert (t : Table α) (r : α) : Option (Table α) :=
  if h : key r ∈ t.rows.map key then none
  else some ⟨t.rows ++ [r], by
    rw [List.map_append, List.nodup_append]
    refine ⟨t.nodup, List.nodup_singleton _, fun a ha b hb hab => ?_⟩
    rw [List.map_singleton, List.mem_singleton] at hb
    exact h (hb ▸ hab ▸ ha)⟩

/-- Keep the rows with a property. -/
def filter (t : Table α) (p : α → Bool) : Table α where
  rows := t.rows.filter p
  nodup := t.nodup.sublist ((List.filter_sublist (p := p)).map key)

/-- Change every row without changing keys. -/
def map (t : Table α) (f : α → α) (hf : ∀ r, key (f r) = key r) : Table α where
  rows := t.rows.map f
  nodup := by
    have h : (t.rows.map f).map key = t.rows.map key := by
      rw [List.map_map]
      exact List.map_congr_left fun x _ => hf x
    rw [h]
    exact t.nodup

/-- The number of rows with a property. -/
def count (t : Table α) (p : α → Bool) : ℕ := t.rows.countP p

/-! ## Reading -/

omit [DecidableEq κ] in
theorem eq_of_key {t : Table α} {r s : α} (hr : r ∈ t.rows) (hs : s ∈ t.rows)
    (h : key r = key s) : r = s :=
  List.inj_on_of_nodup_map t.nodup hr hs h

theorem key_of_get? {t : Table α} {k : κ} {r : α} (h : t.get? k = some r) : key r = k := by
  have := List.find?_some h
  simpa using this

theorem mem_of_get? {t : Table α} {k : κ} {r : α} (h : t.get? k = some r) : r ∈ t.rows :=
  List.mem_of_find?_eq_some h

theorem get?_of_mem {t : Table α} {r : α} (h : r ∈ t.rows) : t.get? (key r) = some r := by
  rcases hf : t.get? (key r) with - | s
  · have hr := List.find?_eq_none.mp hf r h
    simp at hr
  · exact congrArg some (eq_of_key (mem_of_get? hf) h (key_of_get? hf))

theorem get?_eq_some {t : Table α} {k : κ} {r : α} :
    t.get? k = some r ↔ r ∈ t.rows ∧ key r = k :=
  ⟨fun h => ⟨mem_of_get? h, key_of_get? h⟩, fun h => h.2 ▸ get?_of_mem h.1⟩

theorem get?_eq_none {t : Table α} {k : κ} : t.get? k = none ↔ ∀ r ∈ t.rows, key r ≠ k := by
  simp [get?, List.find?_eq_none]

@[simp] theorem get?_empty (k : κ) : (empty : Table α).get? k = none := rfl

theorem get?_put_self {t : Table α} {r old : α} (h : t.get? (key r) = some old) :
    (t.put r).get? (key r) = some r := by
  refine get?_eq_some.mpr ⟨List.mem_map.mpr ⟨old, mem_of_get? h, ?_⟩, rfl⟩
  rw [if_pos (key_of_get? h)]

theorem get?_put_ne {t : Table α} {r : α} {k : κ} (h : key r ≠ k) :
    (t.put r).get? k = t.get? k := by
  refine Option.ext fun s => ?_
  rw [get?_eq_some, get?_eq_some]
  refine and_congr_left fun hs => ⟨fun hm => ?_, fun hm => ?_⟩
  · obtain ⟨x, hx, rfl⟩ := List.mem_map.mp hm
    by_cases hxr : key x = key r
    · rw [if_pos hxr] at hs
      exact absurd hs h
    · rwa [if_neg hxr]
  · refine List.mem_map.mpr ⟨s, hm, ?_⟩
    rw [if_neg fun hsr : key s = key r => h (hsr ▸ hs)]

/-- The row under a key after a replacement. -/
theorem get?_put {t : Table α} {r old : α} (h : t.get? (key r) = some old) (k : κ) :
    (t.put r).get? k = if key r = k then some r else t.get? k := by
  split
  · rename_i hk
    rw [← hk]
    exact get?_put_self h
  · rename_i hk
    exact get?_put_ne hk

omit [DecidableEq κ] in
theorem ext_rows {t u : Table α} (h : t.rows = u.rows) : t = u := by
  cases t
  cases u
  cases h
  rfl

instance [DecidableEq α] : DecidableEq (Table α) := fun t u =>
  decidable_of_iff (t.rows = u.rows) ⟨ext_rows, congrArg rows⟩

/-- A stored row replaced by itself. -/
theorem put_of_get? {t : Table α} {r : α} (h : t.get? (key r) = some r) : t.put r = t := by
  refine ext_rows ((List.map_congr_left fun x hx => ?_).trans (List.map_id t.rows))
  by_cases hk : key x = key r
  · rw [if_pos hk]
    exact (eq_of_key hx (mem_of_get? h) hk).symm
  · rw [if_neg hk]
    rfl

/-- The last replacement under a key counts. -/
theorem put_put {t : Table α} {r s : α} (h : key r = key s) : (t.put r).put s = t.put s := by
  refine ext_rows ?_
  unfold put
  simp only [List.map_map]
  refine List.map_congr_left fun x _ => ?_
  simp only [Function.comp_apply]
  by_cases hx : key x = key r
  · rw [if_pos hx, if_pos h, if_pos (hx.trans h)]
  · rw [if_neg hx]

theorem get?_insert {t t' : Table α} {r : α} (h : t.insert r = some t') (k : κ) :
    t'.get? k = if key r = k then some r else t.get? k := by
  unfold insert at h
  split at h
  · simp at h
  rename_i hnew
  obtain rfl := Option.some.inj h
  unfold get?
  rw [List.find?_append]
  split
  · rename_i hk
    have hnone : t.rows.find? (fun x => key x = k) = none := by
      refine List.find?_eq_none.mpr fun x hx => ?_
      have : key x ≠ k := fun hxk => hnew (List.mem_map.mpr ⟨x, hx, hxk.trans hk.symm⟩)
      simpa using this
    simp [hnone, hk]
  · rename_i hk
    simp [hk]

theorem get?_insert_ne {t t' : Table α} {r : α} {k : κ} (h : t.insert r = some t')
    (hk : key r ≠ k) : t'.get? k = t.get? k :=
  (get?_insert h k).trans (if_neg hk)

theorem get?_of_insert {t t' : Table α} {r : α} (h : t.insert r = some t') :
    t.get? (key r) = none := by
  unfold insert at h
  split at h
  · simp at h
  · rename_i hnew
    exact get?_eq_none.mpr fun x hx hk => hnew (List.mem_map.mpr ⟨x, hx, hk⟩)

/-- A row under a key that is not taken is added. -/
theorem exists_insert {t : Table α} {r : α} (h : t.get? (key r) = none) :
    ∃ t', t.insert r = some t' := by
  unfold insert
  split
  · rename_i htaken
    obtain ⟨x, hx, hk⟩ := List.mem_map.mp htaken
    exact absurd hk (get?_eq_none.mp h x hx)
  · exact ⟨_, rfl⟩

theorem get?_filter {t : Table α} {p : α → Bool} (k : κ) :
    (t.filter p).get? k = (t.get? k).filter p := by
  cases h : t.get? k with
  | none =>
    refine get?_eq_none.mpr fun r hr => ?_
    exact get?_eq_none.mp h r (List.mem_filter.mp hr).1
  | some r =>
    cases hp : p r with
    | true =>
      rw [Option.filter_some, if_pos hp]
      exact get?_eq_some.mpr ⟨List.mem_filter.mpr ⟨mem_of_get? h, hp⟩, key_of_get? h⟩
    | false =>
      rw [Option.filter_some, if_neg (by simp [hp])]
      refine get?_eq_none.mpr fun x hx hk => ?_
      have hx' := List.mem_filter.mp hx
      have : t.get? k = some x := get?_eq_some.mpr ⟨hx'.1, hk⟩
      rw [h, Option.some.injEq] at this
      rw [← this, hp] at hx'
      exact Bool.noConfusion hx'.2

/-- A row that is kept. -/
theorem get?_filter_eq {t : Table α} {p : α → Bool} {k : κ}
    (h : ∀ r, t.get? k = some r → p r = true) : (t.filter p).get? k = t.get? k := by
  rw [get?_filter]
  cases hr : t.get? k with
  | none => rfl
  | some r => rw [Option.filter_some, if_pos (h r hr)]

theorem get?_map {t : Table α} {f : α → α} (hf : ∀ r, key (f r) = key r) (k : κ) :
    (t.map f hf).get? k = (t.get? k).map f := by
  cases h : t.get? k with
  | none =>
    refine get?_eq_none.mpr fun r hr => ?_
    obtain ⟨x, hx, rfl⟩ := List.mem_map.mp hr
    rw [hf]
    exact get?_eq_none.mp h x hx
  | some r =>
    exact get?_eq_some.mpr
      ⟨List.mem_map_of_mem (mem_of_get? h), (hf r).trans (key_of_get? h)⟩

/-- Where a row after a replacement comes from. -/
theorem of_get?_put {t : Table α} {r old s : α} {k : κ} (h : t.get? (key r) = some old)
    (hs : (t.put r).get? k = some s) : key r = k ∧ s = r ∨ key r ≠ k ∧ t.get? k = some s := by
  rw [get?_put h] at hs
  split at hs
  · rename_i hk
    exact .inl ⟨hk, (Option.some.inj hs).symm⟩
  · rename_i hk
    exact .inr ⟨hk, hs⟩

/-- The row under a key after it was replaced. -/
theorem get?_put_at {t : Table α} {r old : α} {k : κ} (h : t.get? k = some old) (hk : key r = k) :
    (t.put r).get? k = some r := by
  rw [← hk] at h ⊢
  exact get?_put_self h

/-- A stored row after a replacement: it is the replaced one, or it stays. -/
theorem get?_put_of_get? {t : Table α} {r old s : α} {k : κ} (h : t.get? (key r) = some old)
    (hs : t.get? k = some s) : s = old ∧ (t.put r).get? k = some r ∨ (t.put r).get? k = some s := by
  rw [get?_put h]
  split
  · rename_i hk
    rw [← hk, h] at hs
    exact .inl ⟨(Option.some.inj hs).symm, rfl⟩
  · exact .inr hs

/-- Where a row after an insertion comes from. -/
theorem of_get?_insert {t t' : Table α} {r s : α} {k : κ} (h : t.insert r = some t')
    (hs : t'.get? k = some s) : key r = k ∧ s = r ∨ t.get? k = some s := by
  rw [get?_insert h] at hs
  split at hs
  · rename_i hk
    exact .inl ⟨hk, (Option.some.inj hs).symm⟩
  · exact .inr hs

/-- A stored row is still there after an insertion. -/
theorem get?_insert_of_get? {t t' : Table α} {r s : α} {k : κ} (h : t.insert r = some t')
    (hs : t.get? k = some s) : t'.get? k = some s := by
  rw [get?_insert h, if_neg fun hk => ?_]
  · exact hs
  · rw [← hk, get?_of_insert h] at hs
    cases hs

/-! ## Selecting rows -/

/-- A selection that takes neither the old nor the new row does not see a replacement. -/
theorem select_put {t : Table α} {r old : α} {p : α → Bool} (h : t.get? (key r) = some old)
    (hold : p old = false) (hr : p r = false) : (t.put r).rows.filter p = t.rows.filter p := by
  have hall : ∀ x ∈ t.rows, key x = key r → p x = false := fun x hx hk => by
    rw [← eq_of_key (mem_of_get? h) hx ((key_of_get? h).trans hk.symm)]
    exact hold
  unfold put
  simp only
  generalize t.rows = l at hall
  induction l with
  | nil => rfl
  | cons x xs ih =>
    have ih := ih fun y hy => hall y (List.mem_cons_of_mem x hy)
    rw [List.map_cons]
    by_cases hx : key x = key r
    · rw [if_pos hx, List.filter_cons_of_neg (by simp [hr]),
        List.filter_cons_of_neg (by simp [hall x (List.mem_cons_self ..) hx])]
      exact ih
    · rw [if_neg hx, List.filter_cons, List.filter_cons, ih]

theorem select_insert {t t' : Table α} {r : α} {p : α → Bool} (h : t.insert r = some t')
    (hr : p r = false) : t'.rows.filter p = t.rows.filter p := by
  unfold insert at h
  split at h
  · simp at h
  · obtain rfl := Option.some.inj h
    simp [hr]

omit [DecidableEq κ] in
theorem select_filter {t : Table α} {p q : α → Bool} (h : ∀ r ∈ t.rows, p r = true → q r = true) :
    (t.filter q).rows.filter p = t.rows.filter p := by
  unfold filter
  simp only
  rw [List.filter_filter]
  refine List.filter_congr fun r hr => ?_
  cases hp : p r with
  | false => simp
  | true => simp [h r hr hp]

omit [DecidableEq κ] in
/-- A selection that takes no changed row, before or after, does not see the change. -/
theorem select_map {t : Table α} {f : α → α} {p : α → Bool} (hf : ∀ r, key (f r) = key r)
    (h : ∀ r ∈ t.rows, f r = r ∨ p r = false ∧ p (f r) = false) :
    (t.map f hf).rows.filter p = t.rows.filter p := by
  unfold map
  simp only
  generalize t.rows = l at h
  induction l with
  | nil => rfl
  | cons x xs ih =>
    have ih := ih fun y hy => h y (List.mem_cons_of_mem x hy)
    rw [List.map_cons]
    rcases h x (List.mem_cons_self ..) with hx | ⟨hx, hfx⟩
    · rw [hx, List.filter_cons, List.filter_cons, ih]
    · rw [List.filter_cons_of_neg (by simp [hfx]), List.filter_cons_of_neg (by simp [hx]), ih]

theorem rows_of_insert {t t' : Table α} {r : α} (h : t.insert r = some t') :
    t'.rows = t.rows ++ [r] := by
  unfold insert at h
  split at h
  · simp at h
  · obtain rfl := Option.some.inj h
    rfl

/-- A projection of selected rows does not see a replacement that it cannot tell apart. -/
theorem project_put {β : Type} {t : Table α} {r old : α} {p : α → Bool} {f : α → β}
    (h : t.get? (key r) = some old) (hp : p r = p old) (hf : f r = f old) :
    ((t.put r).rows.filter p).map f = (t.rows.filter p).map f := by
  have hall : ∀ x ∈ t.rows, key x = key r → x = old := fun x hx hk =>
    eq_of_key hx (mem_of_get? h) (hk.trans (key_of_get? h).symm)
  unfold put
  simp only
  generalize t.rows = l at hall
  induction l with
  | nil => rfl
  | cons x xs ih =>
    have ih := ih fun y hy => hall y (List.mem_cons_of_mem x hy)
    rw [List.map_cons]
    by_cases hx : key x = key r
    · have hxold := hall x (List.mem_cons_self ..) hx
      rw [← hxold] at hp hf
      rw [if_pos hx]
      cases hpx : p x with
      | true =>
        rw [List.filter_cons_of_pos (hp.trans hpx), List.filter_cons_of_pos hpx, List.map_cons,
          List.map_cons, ih, hf]
      | false =>
        rw [List.filter_cons_of_neg (by simp [hp, hpx]), List.filter_cons_of_neg (by simp [hpx])]
        exact ih
    · rw [if_neg hx]
      cases hpx : p x with
      | true =>
        rw [List.filter_cons_of_pos hpx, List.filter_cons_of_pos hpx, List.map_cons, List.map_cons,
          ih]
      | false =>
        rw [List.filter_cons_of_neg (by simp [hpx]), List.filter_cons_of_neg (by simp [hpx])]
        exact ih

/-! ## Rewriting rows -/

/-- The keys stay, and the row under each is related to the one before. -/
def Rewrites (R : α → α → Prop) (t t' : Table α) : Prop :=
  ∀ k, Option.Rel R (t.get? k) (t'.get? k)

namespace Rewrites

variable {R : α → α → Prop} {t t' : Table α}

theorem forward (h : Rewrites R t t') {k : κ} {r : α} (hr : t.get? k = some r) :
    ∃ r', t'.get? k = some r' ∧ R r r' := by
  have hk := h k
  rw [hr] at hk
  cases hr' : t'.get? k with
  | none => simp [hr'] at hk
  | some r' => exact ⟨r', rfl, by simpa [hr'] using hk⟩

theorem backward (h : Rewrites R t t') {k : κ} {r' : α} (hr : t'.get? k = some r') :
    ∃ r, t.get? k = some r ∧ R r r' := by
  have hk := h k
  rw [hr] at hk
  cases hr' : t.get? k with
  | none => simp [hr'] at hk
  | some r => exact ⟨r, rfl, by simpa [hr'] using hk⟩

theorem refl (hR : ∀ s, R s s) (t : Table α) : Rewrites R t t := fun k => by
  cases t.get? k with
  | none => exact .none
  | some s => exact .some (hR s)

theorem mono {S : α → α → Prop} (h : Rewrites R t t') (hR : ∀ {r s : α}, R r s → S r s) :
    Rewrites S t t' := fun k => by
  cases hr : t.get? k with
  | none =>
    cases hs : t'.get? k with
    | none => exact .none
    | some s =>
      obtain ⟨r, hr', -⟩ := h.backward hs
      exact absurd (hr.symm.trans hr') nofun
  | some r =>
    obtain ⟨s, hs, hrs⟩ := h.forward hr
    exact hs ▸ .some (hR hrs)

theorem trans {u : Table α} (h : Rewrites R t t') (h' : Rewrites R t' u)
    (hR : ∀ {r s x : α}, R r s → R s x → R r x) : Rewrites R t u := fun k => by
  cases hr : t.get? k with
  | none =>
    cases hu : u.get? k with
    | none => exact .none
    | some x =>
      obtain ⟨s, hs, -⟩ := h'.backward hu
      obtain ⟨r, hr', -⟩ := h.backward hs
      exact absurd (hr.symm.trans hr') nofun
  | some r =>
    obtain ⟨s, hs, hrs⟩ := h.forward hr
    obtain ⟨x, hx, hsx⟩ := h'.forward hs
    exact hx ▸ .some (hR hrs hsx)

theorem put {r old : α} (hold : t.get? (key r) = some old) (hr : R old r) (hR : ∀ s, R s s) :
    Rewrites R t (t.put r) := by
  intro k
  rw [get?_put hold]
  split
  · rename_i hk
    rw [← hk, hold]
    exact .some hr
  · cases t.get? k with
    | none => exact .none
    | some s => exact .some (hR s)

theorem map {f : α → α} (hf : ∀ r, key (f r) = key r) (h : ∀ r ∈ t.rows, R r (f r)) :
    Rewrites R t (t.map f hf) := by
  intro k
  rw [get?_map hf]
  cases hr : t.get? k with
  | none => exact .none
  | some r => exact .some (h r (mem_of_get? hr))

end Rewrites

/-! ## Counting -/

theorem countP_replace {l : List α} (hl : (l.map key).Nodup) {r old : α} (hmem : old ∈ l)
    (hkey : key old = key r) (p : α → Bool) :
    (l.map fun x => if key x = key r then r else x).countP p + (if p old then 1 else 0) =
      l.countP p + if p r then 1 else 0 := by
  induction l with
  | nil => simp at hmem
  | cons x xs ih =>
    rw [List.map_cons, List.nodup_cons] at hl
    rw [List.map_cons, List.countP_cons, List.countP_cons]
    rcases List.mem_cons.mp hmem with rfl | hxs
    · have hrest : (xs.map fun x => if key x = key r then r else x) = xs := by
        refine (List.map_congr_left fun y hy => ?_).trans (List.map_id xs)
        rw [if_neg fun hyr => hl.1 (List.mem_map.mpr ⟨y, hy, hyr.trans hkey.symm⟩)]
        rfl
      rw [hrest, if_pos hkey]
      omega
    · have hne : key x ≠ key r := fun hx =>
        hl.1 (List.mem_map.mpr ⟨old, hxs, hkey.trans hx.symm⟩)
      rw [if_neg hne]
      have := ih hl.2 hxs
      omega

theorem count_put {t : Table α} {r old : α} (h : t.get? (key r) = some old) (p : α → Bool) :
    (t.put r).count p + (if p old then 1 else 0) = t.count p + if p r then 1 else 0 :=
  countP_replace t.nodup (mem_of_get? h) (key_of_get? h) p

theorem count_insert {t t' : Table α} {r : α} (h : t.insert r = some t') (p : α → Bool) :
    t'.count p = t.count p + if p r then 1 else 0 := by
  unfold insert at h
  split at h
  · simp at h
  · obtain rfl := Option.some.inj h
    simp [count, List.countP_append, List.countP_cons]

omit [DecidableEq κ] in
theorem count_map {t : Table α} {f : α → α} (hf : ∀ r, key (f r) = key r) {p : α → Bool}
    (hp : ∀ r ∈ t.rows, p (f r) = p r) : (t.map f hf).count p = t.count p := by
  unfold count map
  simp only
  rw [List.countP_map]
  exact List.countP_congr fun r hr => by simp [hp r hr]

omit [DecidableEq κ] in
theorem count_filter_le (t : Table α) (p q : α → Bool) : (t.filter q).count p ≤ t.count p :=
  List.filter_sublist.countP_le

/-- Deleting the row under a key leaves all the others to be counted. -/
theorem count_erase (t : Table α) (k : κ) (p : α → Bool) :
    (t.filter fun r => key r ≠ k).count p + (if (t.get? k).any p then 1 else 0) = t.count p := by
  obtain ⟨rows, hrows⟩ := t
  unfold count filter get?
  induction rows with
  | nil => simp
  | cons x xs ih =>
    rw [List.map_cons, List.nodup_cons] at hrows
    have ih := ih hrows.2
    by_cases hx : key x = k
    · subst hx
      have hrest : (xs.filter fun y => !decide (key y = key x)) = xs :=
        List.filter_eq_self.mpr fun y hy => by
          simpa using fun hyx : key y = key x => hrows.1 (hyx ▸ List.mem_map_of_mem hy)
      simp [hrest, List.countP_cons]
    · simp only [ne_eq, hx, not_false_eq_true, decide_true, List.filter_cons_of_pos,
        List.countP_cons, decide_false, Bool.false_eq_true, List.find?_cons_of_neg] at ih ⊢
      omega

end Table
end Lib
