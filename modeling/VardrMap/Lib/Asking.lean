import Mathlib.Data.List.Basic
import Mathlib.Data.Nat.Notation

/-!
# Computations that ask

A computation asks questions on its way, and goes on with what it is answered. Run by itself, the
questions are answered one after the other from a state. Among others, a step answers one
question; what holds of the answers and of the result is then said for all answers to come.
-/
namespace Lib

/-- A computation that is done, or that asks and goes on with the answer. -/
inductive Asking (Q A : Type) (α : Type) where
  | done (a : α)
  | ask (q : Q) (next : A → Asking Q A α)

namespace Asking

variable {Q A α β : Type}

protected def bind : Asking Q A α → (α → Asking Q A β) → Asking Q A β
  | done a, f => f a
  | ask q next, f => ask q fun a => (next a).bind f

instance : Monad (Asking Q A) where
  pure := done
  bind := Asking.bind

/-- One question. -/
def question (q : Q) : Asking Q A A := ask q done

@[simp] theorem pure_eq (a : α) : (pure a : Asking Q A α) = done a := rfl

@[simp] theorem done_bind (a : α) (f : α → Asking Q A β) : (done a >>= f) = f a := rfl

@[simp] theorem ask_bind (q : Q) (next : A → Asking Q A α) (f : α → Asking Q A β) :
    (ask q next >>= f) = ask q fun a => next a >>= f := rfl

@[simp] theorem question_bind (q : Q) (f : A → Asking Q A β) : (question q >>= f) = ask q f := rfl

/-! ## By itself -/

section
variable {σ ε : Type} (answer : σ → Q → Except ε (σ × A))

/-- The questions in turn, each answered from what the one before has left. -/
def run : σ → Asking Q A α → Except ε (σ × α)
  | s, done a => .ok (s, a)
  | s, ask q next => do
    let (s, a) ← answer s q
    run s (next a)

@[simp] theorem run_done (s : σ) (a : α) : run answer s (done a : Asking Q A α) = .ok (s, a) := rfl

@[simp] theorem run_ask (s : σ) (q : Q) (next : A → Asking Q A α) :
    run answer s (ask q next) = answer s q >>= fun x => run answer x.1 (next x.2) := rfl

theorem run_bind (s : σ) (p : Asking Q A α) (f : α → Asking Q A β) :
    run answer s (p >>= f) = run answer s p >>= fun x => run answer x.1 (f x.2) := by
  induction p generalizing s with
  | done a => rfl
  | ask q next ih =>
    rw [ask_bind, run_ask, run_ask]
    cases answer s q with
    | error e => rfl
    | ok x => exact ih x.2 x.1

end

/-! ## Among others -/

/-- Whatever the answers to come are, the result is one that they and the earlier ones allow. -/
def Ends (P : List (Q × A) → α → Prop) (log : List (Q × A)) : Asking Q A α → Prop
  | done a => P log a
  | ask q next => ∀ a, Ends P (log ++ [(q, a)]) (next a)

variable {P : List (Q × A) → α → Prop} {log : List (Q × A)} {p : Asking Q A α}

theorem Ends.bind {R : List (Q × A) → β → Prop} {f : α → Asking Q A β} (h : Ends P log p)
    (hf : ∀ log a, P log a → Ends R log (f a)) : Ends R log (p >>= f) := by
  induction p generalizing log with
  | done a => exact hf log a h
  | ask q next ih => exact fun a => ih a (h a)

theorem Ends.imp {R : List (Q × A) → α → Prop} (h : Ends P log p)
    (hR : ∀ log a, P log a → R log a) : Ends R log p := by
  induction p generalizing log with
  | done a => exact hR log a h
  | ask q next ih => exact fun a => ih a (h a)

/-- No answer is forgotten. -/
theorem Ends.extends (h : Ends P log p) : Ends (fun log' a => log ⊆ log' ∧ P log' a) log p := by
  induction p generalizing log with
  | done a => exact ⟨fun _ => id, h⟩
  | ask q next ih =>
    intro a
    refine (ih a (h a)).imp fun log' b hb => ⟨?_, hb.2⟩
    exact fun x hx => hb.1 (List.mem_append_left _ hx)

/-- A loop, with the number of its turns so far. -/
theorem Ends.foldlM {S : Type} {P : ℕ → List (Q × A) → S → Prop} {f : S → β → Asking Q A S}
    {l : List β} {s : S} {n : ℕ} (hs : P n log s)
    (hf : ∀ n log s, P n log s → ∀ b, Ends (P (n + 1)) log (f s b)) :
    Ends (P (n + l.length)) log (l.foldlM f s) := by
  induction l generalizing log s n with
  | nil => exact hs
  | cons b l ih =>
    rw [List.foldlM_cons, List.length_cons, Nat.add_comm l.length 1, ← Nat.add_assoc]
    exact (hf n log s hs b).bind fun log s hs => ih hs

end Asking
end Lib
