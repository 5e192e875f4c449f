import VardrMap.Lib.Runs
import Mathlib.Data.Nat.Notation
import Mathlib.Data.Option.Basic

/-!
# Clients on a shared state

Clients work on one shared state. Each is in a phase of its own, which keeps what the client
has read so far; the others see only what is shared. A step of one client changes its phase,
and may change what is shared; the phases of the others can then note that it did. The steps
are those of a function from actions to successor states, under a condition on the step, and
a run of it is an interleaving of the clients.
-/
namespace Lib

/-- A shared state, and the phase of each client. -/
structure Clients (σ φ : Type) where
  shared : σ
  phase : ℕ → φ

namespace Clients

variable {σ φ : Type}

/-- Every client in one phase. -/
def start (s : σ) (x : φ) : Clients σ φ := ⟨s, fun _ => x⟩

/-- Client `c` enters another phase. -/
def enter (w : Clients σ φ) (c : ℕ) (x : φ) : Clients σ φ :=
  { w with phase := fun d => if d = c then x else w.phase d }

/-- Client `c` changes what is shared, and the others take note. -/
def commit (w : Clients σ φ) (c : ℕ) (s : σ) (x : φ) (note : φ → φ) : Clients σ φ where
  shared := s
  phase := fun d => if d = c then x else note (w.phase d)

@[simp] theorem shared_start (s : σ) (x : φ) : (start s x).shared = s := rfl

@[simp] theorem phase_start (s : σ) (x : φ) (d : ℕ) : (start s x).phase d = x := rfl

@[simp] theorem shared_enter (w : Clients σ φ) (c : ℕ) (x : φ) : (w.enter c x).shared = w.shared :=
  rfl

@[simp] theorem shared_commit (w : Clients σ φ) (c : ℕ) (s : σ) (x : φ) (note : φ → φ) :
    (w.commit c s x note).shared = s := rfl

theorem phase_enter (w : Clients σ φ) (c : ℕ) (x : φ) (d : ℕ) :
    (w.enter c x).phase d = if d = c then x else w.phase d := rfl

theorem phase_commit (w : Clients σ φ) (c : ℕ) (s : σ) (x : φ) (note : φ → φ) (d : ℕ) :
    (w.commit c s x note).phase d = if d = c then x else note (w.phase d) := rfl

/-- What holds of the phase entered and of every other phase holds of every phase. -/
theorem forall_enter {w : Clients σ φ} {c : ℕ} {x : φ} {p : ℕ → φ → Prop} (hx : p c x)
    (h : ∀ d, p d (w.phase d)) (d : ℕ) : p d ((w.enter c x).phase d) := by
  rw [phase_enter]
  split
  · rename_i hd
    exact hd ▸ hx
  · exact h d

theorem forall_commit {w : Clients σ φ} {c : ℕ} {s : σ} {x : φ} {note : φ → φ}
    {p : ℕ → φ → Prop} (hx : p c x) (h : ∀ d ≠ c, p d (note (w.phase d))) (d : ℕ) :
    p d ((w.commit c s x note).phase d) := by
  rw [phase_commit]
  split
  · rename_i hd
    exact hd ▸ hx
  · exact h d ‹_›

end Clients

/-- The steps of a function that meet a condition, each labelled with its action. -/
inductive Taken {τ α : Type} (next : τ → α → Option τ) (meets : τ → α → Prop) :
    τ → List α → τ → Prop
  | step {s t : τ} {a : α} (h : next s a = some t) (hm : meets s a) : Taken next meets s [a] t

/-- A run whose steps meet one condition is a run whose steps meet another, where every step
from a state with the invariant keeps the invariant and meets the other. -/
theorem Run.retaken {τ α : Type} {next : τ → α → Option τ} {meets meets' : τ → α → Prop}
    (inv : τ → Prop)
    (hstep : ∀ {s t : τ} {a : α}, inv s → next s a = some t → meets s a → inv t ∧ meets' s a)
    {s t : τ} {actions : List α} (h : Run (Taken next meets) s actions t) (hs : inv s) :
    Run (Taken next meets') s actions t ∧ inv t := by
  induction h with
  | refl => exact ⟨.refl _, hs⟩
  | tail _ last ih =>
    obtain ⟨hrun, ht⟩ := ih
    cases last with
    | step hnext hm =>
      obtain ⟨hu, hm'⟩ := hstep ht hnext hm
      exact ⟨.tail hrun (.step hnext hm'), hu⟩

/-- Actions taken one after the other, each under the condition, are a run. -/
theorem Run.of_foldlM {τ α : Type} {next : τ → α → Option τ} {meets : τ → α → Prop}
    [∀ s a, Decidable (meets s a)] {actions : List α} {s t : τ}
    (h : actions.foldlM (fun s a => if meets s a then next s a else none) s = some t) :
    Run (Taken next meets) s actions t := by
  induction actions generalizing s with
  | nil => exact Option.some.inj h ▸ .refl s
  | cons a actions ih =>
    obtain ⟨u, hu, h⟩ := Option.bind_eq_some_iff.mp h
    obtain ⟨hm, hu⟩ := Option.ite_none_right_eq_some.mp hu
    exact Run.head (.step hu hm) (ih h)

end Lib
