import Mathlib.Data.Set.Basic

/-!
# Rules of two polarities where denial wins

A rule set is a set of denying rules and a set of permitting rules; a rule holds for the
request at hand or it does not. Whatever denies wins, and a request that no rule holds for is
left undecided. The verdict depends on the two sets alone, and more denials with fewer
permissions never turn it into a permission.
-/
namespace Lib

variable {α : Type}

/-- What a set of rules says about one request. -/
inductive Verdict where
  | denied
  | permitted
  | undecided
  deriving DecidableEq

open Classical in
/-- Denial first, then permission. -/
noncomputable def verdict (deny permit : Set α) (holds : α → Prop) : Verdict :=
  if ∃ r ∈ deny, holds r then .denied
  else if ∃ r ∈ permit, holds r then .permitted
  else .undecided

variable {deny deny' permit permit' : Set α} {holds : α → Prop}

theorem verdict_eq_denied : verdict deny permit holds = .denied ↔ ∃ r ∈ deny, holds r := by
  unfold verdict
  split_ifs with hd hp <;> simp [hd]

theorem verdict_eq_permitted : verdict deny permit holds = .permitted ↔
    (¬ ∃ r ∈ deny, holds r) ∧ ∃ r ∈ permit, holds r := by
  unfold verdict
  split_ifs with hd hp
  · simp [hd]
  · exact ⟨fun _ => ⟨hd, hp⟩, fun _ => rfl⟩
  · simp [hp]

theorem verdict_eq_undecided : verdict deny permit holds = .undecided ↔
    (¬ ∃ r ∈ deny, holds r) ∧ ¬ ∃ r ∈ permit, holds r := by
  unfold verdict
  split_ifs with hd hp
  · simp [hd]
  · simp [hp]
  · exact ⟨fun _ => ⟨hd, hp⟩, fun _ => rfl⟩

/-- A permission survives fewer denials and more permissions. -/
theorem verdict_permitted_mono (hdeny : deny ⊆ deny') (hpermit : permit' ⊆ permit)
    (h : verdict deny' permit' holds = .permitted) : verdict deny permit holds = .permitted := by
  obtain ⟨hfree, r, hr, hholds⟩ := verdict_eq_permitted.mp h
  refine verdict_eq_permitted.mpr ⟨?_, r, hpermit hr, hholds⟩
  intro ⟨d, hd, hdh⟩
  exact hfree ⟨d, hdeny hd, hdh⟩

end Lib
