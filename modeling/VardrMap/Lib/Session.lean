import Mathlib.Data.Nat.Notation
import Mathlib.Logic.Basic

/-!
# Database sessions

A session holds what is stored and a working copy of it. The statements of a program read and
write the working copy; a commit stores it and a rollback drops it. Any statement may fail on
its own account, as the schedule of failures says, and a program that fails keeps what it had
written so far in the working copy. A program that commits once, as its last statement, is
atomic under every schedule; without failures it computes what a function of the stored state
computes, when each of its statements does.
-/
namespace Lib

/-- What is stored, the working copy, and the number of statements so far. -/
structure Session (σ : Type) where
  stored : σ
  working : σ
  count : ℕ

/-- A clean session on a stored state. -/
def Session.clean {σ : Type} (s : σ) : Session σ := ⟨s, s, 0⟩

/-- The statements that fail on their own account. -/
abbrev Schedule (ε : Type) := ℕ → Option ε

/-- A program on a session. It ends with a value or an error, in some session either way. -/
def Tx (ε σ α : Type) : Type := Schedule ε → Session σ → Except ε α × Session σ

namespace Tx

variable {ε σ α β : Type}

instance : Monad (Tx ε σ) where
  pure a := fun _ s => (.ok a, s)
  bind m k := fun faults s =>
    match m faults s with
    | (.ok a, s) => k a faults s
    | (.error e, s) => (.error e, s)

/-- One statement on the working copy. -/
def statement (f : σ → Except ε (σ × α)) : Tx ε σ α := fun faults s =>
  match faults s.count with
  | some e => (.error e, s)
  | none =>
    match f s.working with
    | .ok (w, a) => (.ok a, { s with working := w, count := s.count + 1 })
    | .error e => (.error e, s)

/-- A statement that only reads. -/
def check (f : σ → Except ε α) : Tx ε σ α := statement fun w => (f w).map (w, ·)

/-- A computation apart from the working copy. -/
def lift (x : Except ε α) : Tx ε σ α := check fun _ => x

/-- A statement that returns rows. -/
def select (f : σ → α) : Tx ε σ α := check fun w => .ok (f w)

/-- A statement that only writes. -/
def write (f : σ → σ) : Tx ε σ Unit := statement fun w => .ok (f w, ())

/-- A statement that is refused, or writes what it computed. -/
def store (f : σ → Except ε α) (put : σ → α → σ) : Tx ε σ Unit :=
  statement fun w => (f w).map (put w ·, ())

/-- A statement that is refused, or replaces the working copy. -/
def update (f : σ → Except ε σ) : Tx ε σ Unit := store f fun _ w => w

/-- Store the working copy. -/
def commit : Tx ε σ Unit := fun faults s =>
  match faults s.count with
  | some e => (.error e, s)
  | none => (.ok (), { s with stored := s.working, count := s.count + 1 })

/-- What a program answers after its commit, without another statement. -/
def answer (x : Except ε α) : Tx ε σ α := fun _ s => (x, s)

/-- Drop the working copy. -/
def rollback (s : Session σ) : Session σ := { s with working := s.stored }

/-! ## Atomic programs -/

/-- The program leaves what is stored alone. -/
def Keeps (m : Tx ε σ α) : Prop := ∀ faults s, (m faults s).2.stored = s.stored

/-- The program leaves what is stored alone when it fails. -/
def Atomic (m : Tx ε σ α) : Prop :=
  ∀ faults s e, (m faults s).1 = .error e → (m faults s).2.stored = s.stored

theorem Keeps.atomic {m : Tx ε σ α} (h : m.Keeps) : m.Atomic := fun faults s _ _ => h faults s

theorem keeps_pure (a : α) : Keeps (pure a : Tx ε σ α) := fun _ _ => rfl

theorem keeps_statement (f : σ → Except ε (σ × α)) : (statement f).Keeps := by
  intro faults s
  unfold statement
  split
  · rfl
  · split <;> rfl

theorem keeps_check (f : σ → Except ε α) : (check f).Keeps := keeps_statement _

theorem keeps_lift (x : Except ε α) : (lift x : Tx ε σ α).Keeps := keeps_statement _

theorem keeps_select (f : σ → α) : (select f : Tx ε σ α).Keeps := keeps_statement _

theorem keeps_write (f : σ → σ) : (write f : Tx ε σ Unit).Keeps := keeps_statement _

theorem keeps_store (f : σ → Except ε α) (put : σ → α → σ) : (store f put).Keeps :=
  keeps_statement _

theorem keeps_update (f : σ → Except ε σ) : (update f).Keeps := keeps_statement _

theorem Keeps.bind {m : Tx ε σ α} {k : α → Tx ε σ β} (hm : m.Keeps) (hk : ∀ a, (k a).Keeps) :
    (m >>= k).Keeps := by
  intro faults s
  have hs := hm faults s
  simp only [Bind.bind]
  split
  · rename_i a t h
    rw [hk a faults t, ← hs, h]
  · rename_i e t h
    rw [← hs, h]

/-- Before its last part, an atomic program only works on the copy. -/
theorem Keeps.bind_atomic {m : Tx ε σ α} {k : α → Tx ε σ β} (hm : m.Keeps)
    (hk : ∀ a, (k a).Atomic) : (m >>= k).Atomic := by
  intro faults s e
  have hs := hm faults s
  simp only [Bind.bind]
  split
  · rename_i a t h
    intro he
    rw [hk a faults t e he, ← hs, h]
  · rename_i e' t h
    intro _
    rw [← hs, h]

/-- A commit with an answer that cannot fail is atomic. -/
theorem atomic_commit {k : Unit → Tx ε σ α} {a : α} (hk : k () = answer (.ok a)) :
    (commit >>= k).Atomic := by
  intro faults s e
  simp only [Bind.bind, commit]
  cases hf : faults s.count with
  | some e' => intro _; rfl
  | none =>
    simp only [hk, answer]
    intro h
    simp at h

/-- The program leaves what is stored and the working copy alone. -/
def Reads (m : Tx ε σ α) : Prop :=
  ∀ faults s, (m faults s).2.stored = s.stored ∧ (m faults s).2.working = s.working

/-- The program leaves what is stored alone when it fails in a session without writes. -/
def CleanAtomic (m : Tx ε σ α) : Prop :=
  ∀ faults s e, s.working = s.stored → (m faults s).1 = .error e →
    (m faults s).2.stored = s.stored

theorem Atomic.clean {m : Tx ε σ α} (h : m.Atomic) : m.CleanAtomic := fun faults s e _ he =>
  h faults s e he

theorem reads_check (f : σ → Except ε α) : (check f).Reads := by
  intro faults s
  unfold check statement
  split
  · exact ⟨rfl, rfl⟩
  · cases hf : f s.working <;> simp [hf, Except.map]

theorem reads_lift (x : Except ε α) : (lift x : Tx ε σ α).Reads := reads_check _

theorem Reads.bind {m : Tx ε σ α} {k : α → Tx ε σ β} (hm : m.Reads)
    (hk : ∀ a, (k a).CleanAtomic) : (m >>= k).CleanAtomic := by
  intro faults s e hs
  have hread := hm faults s
  simp only [Bind.bind]
  split
  · rename_i a t h
    rw [h] at hread
    intro he
    rw [hk a faults t e (by rw [hread.1, hread.2, hs]) he, hread.1]
  · rename_i e' t h
    rw [h] at hread
    intro _
    exact hread.1

/-- A commit without writes stores nothing new, whatever it answers. -/
theorem cleanAtomic_commit (x : Except ε α) :
    (commit >>= fun _ => answer x : Tx ε σ α).CleanAtomic := by
  intro faults s e hs
  simp only [Bind.bind, commit]
  cases hf : faults s.count with
  | some e' => intro _; rfl
  | none => intro _; exact hs

/-! ## Programs as functions -/

/-- No statement fails on its own account. -/
def noFaults : Schedule ε := fun _ => none

/-- Without failures the program does on the working copy what a function says, and stores
it too when it commits. -/
def Computes (commits : Bool) (m : Tx ε σ α) (f : Except ε (σ × α)) (s : Session σ) : Prop :=
  match f with
  | .ok (w, a) => ∃ n, m noFaults s = (.ok a, ⟨if commits then w else s.stored, w, n⟩)
  | .error e => ∃ t, m noFaults s = (.error e, t)

variable {commits : Bool}

theorem Computes.bind {m : Tx ε σ α} {k : α → Tx ε σ β} {f : Except ε (σ × α)}
    {g : σ × α → Except ε (σ × β)} {s : Session σ} (hm : m.Computes false f s)
    (hk : ∀ w a n, f = .ok (w, a) → (k a).Computes commits (g (w, a)) ⟨s.stored, w, n⟩) :
    (m >>= k).Computes commits (f >>= g) s := by
  cases hf : f with
  | ok r =>
    obtain ⟨w, a⟩ := r
    rw [hf] at hm
    obtain ⟨n, hn⟩ := hm
    have hrest := hk w a n hf
    simp only [Computes, Bind.bind, Except.bind, hn] at hrest ⊢
    exact hrest
  | error e =>
    rw [hf] at hm
    obtain ⟨t, ht⟩ := hm
    exact ⟨t, by simp only [Bind.bind, ht]⟩

theorem computes_store {f : σ → Except ε α} {put : σ → α → σ} {x : Except ε α}
    {k : Unit → Tx ε σ β} {g : α → Except ε (σ × β)} {s : Session σ} (hx : f s.working = x)
    (hk : ∀ a n, x = .ok a → (k ()).Computes commits (g a) ⟨s.stored, put s.working a, n⟩) :
    (store f put >>= k).Computes commits (x >>= g) s := by
  subst hx
  cases hf : f s.working with
  | ok a =>
    have hrest := hk a (s.count + 1) hf
    simp only [Computes, Bind.bind, Except.bind, store, statement, noFaults, hf, Except.map]
      at hrest ⊢
    exact hrest
  | error e => exact ⟨s, by simp only [Bind.bind, store, statement, noFaults, hf, Except.map]⟩

theorem computes_check {f : σ → Except ε α} {x : Except ε α} {k : α → Tx ε σ β}
    {g : α → Except ε (σ × β)} {s : Session σ} (hx : f s.working = x)
    (hk : ∀ a n, x = .ok a → (k a).Computes commits (g a) ⟨s.stored, s.working, n⟩) :
    (check f >>= k).Computes commits (x >>= g) s := by
  subst hx
  cases hf : f s.working with
  | ok a =>
    have hrest := hk a (s.count + 1) hf
    simp only [Computes, Bind.bind, Except.bind, check, statement, noFaults, hf, Except.map]
      at hrest ⊢
    exact hrest
  | error e => exact ⟨s, by simp only [Bind.bind, check, statement, noFaults, hf, Except.map]⟩

theorem computes_lift {x : Except ε α} {k : α → Tx ε σ β} {g : α → Except ε (σ × β)}
    {s : Session σ}
    (hk : ∀ a n, x = .ok a → (k a).Computes commits (g a) ⟨s.stored, s.working, n⟩) :
    (lift x >>= k).Computes commits (x >>= g) s := computes_check rfl hk

theorem computes_select {f : σ → α} {k : α → Tx ε σ β} {g : Except ε (σ × β)} {s : Session σ}
    (hk : ∀ n, (k (f s.working)).Computes commits g ⟨s.stored, s.working, n⟩) :
    (select f >>= k).Computes commits g s := hk (s.count + 1)

theorem computes_update {f : σ → Except ε σ} {x : Except ε σ} {k : Unit → Tx ε σ β}
    {g : σ → Except ε (σ × β)} {s : Session σ} (hx : f s.working = x)
    (hk : ∀ w n, x = .ok w → (k ()).Computes commits (g w) ⟨s.stored, w, n⟩) :
    (update f >>= k).Computes commits (x >>= g) s := computes_store hx hk

theorem computes_write {f : σ → σ} {k : Unit → Tx ε σ β} {g : Except ε (σ × β)}
    {s : Session σ} (hk : ∀ n, (k ()).Computes commits g ⟨s.stored, f s.working, n⟩) :
    (write f >>= k).Computes commits g s := hk (s.count + 1)

theorem computes_pure {a : α} {w : σ} {s : Session σ} (hw : s.working = w) :
    (pure a : Tx ε σ α).Computes false (.ok (w, a)) s := ⟨s.count, by rw [← hw]; rfl⟩

/-- A program that commits and answers what a function computes. -/
theorem computes_commit {x : Except ε α} {w : σ} {s : Session σ} (hw : s.working = w) :
    (commit >>= fun _ => answer x : Tx ε σ α).Computes true (x >>= fun a => .ok (w, a)) s := by
  subst hw
  cases x with
  | ok a => exact ⟨s.count + 1, rfl⟩
  | error e => exact ⟨_, rfl⟩

theorem computes_commit_map {γ : Type} {x : Except ε α} {f : α → γ} {w : σ} {s : Session σ}
    (hw : s.working = w) :
    (commit >>= fun _ => answer (x.map f) : Tx ε σ γ).Computes true
      (x >>= fun a => .ok (w, f a)) s := by
  have h := computes_commit (x := x.map f) hw
  cases x <;> exact h

end Tx
end Lib
