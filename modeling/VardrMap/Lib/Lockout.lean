import VardrMap.Lib.Runs
import Mathlib.Algebra.Order.Group.Defs
import Mathlib.Algebra.Order.Group.Unbundled.Basic
import Mathlib.Data.List.Count

/-!
# Locking out repeated failures

A counter of failed tries. It forgets them once the last one is a window old, and a failure that
reaches the limit bars all tries for a window. Whenever the tries come, a window without a
success holds no more failures than the limit.
-/
namespace Lib

/-- How many tries failed, when the last one did, and until when tries are barred. -/
structure Lockout (τ : Type) where
  failures : ℕ
  last : Option τ
  barredUntil : Option τ

namespace Lockout

/-- A try that was let through, and its time. -/
inductive Mark (τ : Type) where
  | failed (t : τ)
  | passed (t : τ)

variable {τ : Type} [AddCommGroup τ] [LinearOrder τ]

def Barred (c : Lockout τ) (t : τ) : Prop := ∃ u ∈ c.barredUntil, t < u

/-- The counter after a failure. -/
def fail (limit : ℕ) (window : τ) (c : Lockout τ) (t : τ) : Lockout τ :=
  let failures := (if c.last.all (· ≤ t - window) then 0 else c.failures) + 1
  { failures, last := some t
    barredUntil := if limit ≤ failures then some (t + window) else c.barredUntil }

/-- The counter after a success. -/
def clear : Lockout τ := ⟨0, none, none⟩

/-- Time passes, or a try is let through. -/
inductive Step (limit : ℕ) (window : τ) : Lockout τ × τ → List (Mark τ) → Lockout τ × τ → Prop
  | wait {c : Lockout τ} {t u : τ} (h : t ≤ u) : Step limit window (c, t) [] (c, u)
  | fail {c : Lockout τ} {t u : τ} (h : t ≤ u) (hopen : ¬ c.Barred u) :
    Step limit window (c, t) [.failed u] (c.fail limit window u, u)
  | pass {c : Lockout τ} {t u : τ} (h : t ≤ u) (hopen : ¬ c.Barred u) :
    Step limit window (c, t) [.passed u] (clear, u)

/-- The failures in the window from `a` on. -/
def failuresFrom (a window : τ) (es : List (Mark τ)) : ℕ :=
  es.countP fun
    | .failed t => a ≤ t ∧ t < a + window
    | .passed _ => false

/-- No success in the window from `a` on. -/
def Unbroken (a window : τ) (es : List (Mark τ)) : Prop :=
  ∀ t, .passed t ∈ es → ¬ (a ≤ t ∧ t < a + window)

/-- The counter knows of `n` failures since `a`, and bars the rest of the window at the limit. -/
structure Counts (limit : ℕ) (a window : τ) (n : ℕ) (s : Lockout τ × τ) : Prop where
  le_failures : n ≤ s.1.failures
  recent : ∃ f ∈ s.1.last, a ≤ f ∧ f ≤ s.2
  barred : limit ≤ n → ∃ u ∈ s.1.barredUntil, a + window ≤ u

variable {limit : ℕ} {a window : τ} {es fs : List (Mark τ)} {s s' : Lockout τ × τ}

@[simp] theorem failuresFrom_nil : failuresFrom a window [] = 0 := rfl

theorem failuresFrom_append :
    failuresFrom a window (es ++ fs) = failuresFrom a window es + failuresFrom a window fs :=
  List.countP_append

theorem failuresFrom_failed (t : τ) :
    failuresFrom a window [.failed t] = if a ≤ t ∧ t < a + window then 1 else 0 := by
  simp only [failuresFrom, List.countP_singleton, decide_eq_true_eq]

@[simp] theorem failuresFrom_passed (t : τ) : failuresFrom a window [.passed t] = 0 := rfl

variable [IsOrderedAddMonoid τ]

/-- A failure that was let through counts, and was not beyond the limit. -/
theorem Counts.fail {n : ℕ} {c : Lockout τ} {t u : τ} (h : Counts limit a window n (c, t))
    (htu : t ≤ u) (hu : u < a + window) (hopen : ¬ c.Barred u) :
    n < limit ∧ Counts limit a window (n + 1) (c.fail limit window u, u) := by
  obtain ⟨f, hf, hle, hft⟩ := h.recent
  have hlast : c.last = some f := hf
  have hstale : ¬ f ≤ u - window := by
    rw [not_le, sub_lt_iff_lt_add]
    exact hu.trans_le (add_le_add_left hle window)
  have hfailures : (c.fail limit window u).failures = c.failures + 1 := by
    simp only [Lockout.fail, hlast, Option.all_some, hstale, decide_false, Bool.false_eq_true,
      if_false]
  have hau : a ≤ u := hle.trans (hft.trans htu)
  have hn : n < limit := by
    by_contra hlimit
    obtain ⟨v, hv, hav⟩ := h.barred (not_lt.mp hlimit)
    exact hopen ⟨v, hv, hu.trans_le hav⟩
  refine ⟨hn, ?_, ⟨u, rfl, hau, le_rfl⟩, fun hlimit => ?_⟩
  · rw [hfailures]
    exact Nat.succ_le_succ h.le_failures
  · have hreached : limit ≤ (c.fail limit window u).failures := by
      rw [hfailures]
      exact hlimit.trans (Nat.succ_le_succ h.le_failures)
    exact ⟨u + window, if_pos hreached, add_le_add_left hau window⟩

/-- The first failure of a window. -/
theorem counts_fail_one {c : Lockout τ} {u : τ} (hau : a ≤ u) :
    Counts limit a window 1 (c.fail limit window u, u) := by
  have hone : 1 ≤ (c.fail limit window u).failures := Nat.le_add_left 1 _
  refine ⟨hone, ⟨u, rfl, hau, le_rfl⟩, fun hlimit => ?_⟩
  exact ⟨u + window, if_pos (hlimit.trans hone), add_le_add_left hau window⟩

/-- What a run keeps: the failures of the window are within the limit, and as long as the window
lasts the counter knows of them. -/
structure Held (limit : ℕ) (a window : τ) (n : ℕ) (s : Lockout τ × τ) : Prop where
  le_limit : n ≤ limit
  counts : s.2 < a + window → 0 < n → Counts limit a window n s

theorem held_step (hlimit : 0 < limit) (h : Held limit a window (failuresFrom a window es) s)
    (hstep : Step limit window s fs s') (hfs : Unbroken a window fs) :
    Held limit a window (failuresFrom a window (es ++ fs)) s' := by
  cases hstep with
  | wait htu =>
    rw [List.append_nil]
    refine ⟨h.le_limit, fun hu hpos => ?_⟩
    have hcounts := h.counts (htu.trans_lt hu) hpos
    obtain ⟨f, hf, hle, hft⟩ := hcounts.recent
    exact ⟨hcounts.le_failures, ⟨f, hf, hle, hft.trans htu⟩, hcounts.barred⟩
  | @fail c t u htu hopen =>
    rw [failuresFrom_append, failuresFrom_failed]
    split
    · rename_i hin
      rcases Nat.eq_zero_or_pos (failuresFrom a window es) with hzero | hpos
      · rw [hzero]
        exact ⟨hlimit, fun _ _ => counts_fail_one hin.1⟩
      · obtain ⟨hlt, hcounts⟩ :=
          (h.counts (htu.trans_lt hin.2) hpos).fail htu hin.2 hopen
        exact ⟨hlt, fun _ _ => hcounts⟩
    · rename_i hout
      rw [Nat.add_zero]
      refine ⟨h.le_limit, fun hu hpos => ?_⟩
      -- A failure before the window comes before all failures in it.
      obtain ⟨f, -, hle, hft⟩ := (h.counts (htu.trans_lt hu) hpos).recent
      exact (hout ⟨hle.trans (hft.trans htu), hu⟩).elim
  | @pass c t u htu hopen =>
    rw [failuresFrom_append, failuresFrom_passed, Nat.add_zero]
    refine ⟨h.le_limit, fun hu hpos => ?_⟩
    obtain ⟨f, -, hle, hft⟩ := (h.counts (htu.trans_lt hu) hpos).recent
    exact (hfs u (List.mem_singleton_self _) ⟨hle.trans (hft.trans htu), hu⟩).elim

/-- A window without a success holds no more failures than the limit. -/
theorem failures_le (hlimit : 0 < limit) (h : Run (Step limit window) s es s')
    (hes : Unbroken a window es) : failuresFrom a window es ≤ limit := by
  have hstart : Unbroken a window [] → Held limit a window (failuresFrom a window []) s := fun _ =>
    ⟨Nat.zero_le _, fun _ hpos => absurd hpos (lt_irrefl 0)⟩
  have hheld : Unbroken a window es → Held limit a window (failuresFrom a window es) s' := by
    refine h.traceInvariant (fun es s =>
        Unbroken a window es → Held limit a window (failuresFrom a window es) s)
      (fun hes hstep hall => ?_) hstart
    exact held_step hlimit (hes fun t ht => hall t (List.mem_append_left _ ht)) hstep
      fun t ht => hall t (List.mem_append_right _ ht)
  exact (hheld hes).le_limit

end Lockout
end Lib
