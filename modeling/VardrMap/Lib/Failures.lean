import Mathlib.Data.List.Basic

/-!
# Planned and unplanned failures

A check answers some inputs with a planned failure. What else it fails with is described by a
predicate, exactly: every failure is planned or described, and what is described does happen. The
description of a sequence of checks is put together from theirs.
-/
namespace Lib

variable {ε α β : Type} {planned : ε → Prop}

/-- The failures of `x` are planned ones and those of `P`. -/
structure Failing (planned : ε → Prop) (x : Except ε α) (P : ε → Prop) : Prop where
  sound : ∀ e, x = .error e → planned e ∨ P e
  complete : ∀ e, P e → x = .error e

/-- Nothing but planned failures. -/
abbrev Clean (planned : ε → Prop) (x : Except ε α) : Prop := Failing planned x fun _ => False

namespace Failing

variable {x : Except ε α} {P Q : ε → Prop}

theorem ok (a : α) : Clean planned (.ok a : Except ε α) := ⟨nofun, nofun⟩

theorem error {e : ε} (h : planned e) : Clean planned (.error e : Except ε α) :=
  ⟨fun _ he => .inl (Except.error.inj he ▸ h), nofun⟩

theorem congr (h : Failing planned x P) (hPQ : ∀ e, P e ↔ Q e) : Failing planned x Q :=
  ⟨fun e he => (h.sound e he).imp_right (hPQ e).mp, fun e he => h.complete e ((hPQ e).mpr he)⟩

/-- The second check is described for what the first one has passed on. -/
theorem bind {f : α → Except ε β} {R : α → ε → Prop} (hx : Failing planned x P)
    (hf : ∀ a, x = .ok a → Failing planned (f a) (R a)) :
    Failing planned (x >>= f) fun e => P e ∨ ∃ a, x = .ok a ∧ R a e := by
  cases x with
  | ok a =>
    refine ⟨fun e he => ?_, fun e he => ?_⟩
    · exact ((hf a rfl).sound e he).imp_right fun h => .inr ⟨a, rfl, h⟩
    · obtain h | ⟨b, hb, h⟩ := he
      · cases hx.complete e h
      · obtain rfl := Except.ok.inj hb
        exact (hf a rfl).complete e h
  | error e' =>
    refine ⟨fun e he => ?_, fun e he => ?_⟩
    · obtain rfl := Except.error.inj he
      exact (hx.sound e' rfl).imp_right .inl
    · obtain h | ⟨b, hb, -⟩ := he
      · exact congrArg _ (Except.error.inj (hx.complete e h))
      · cases hb

theorem clean_bind {f : α → Except ε β} {R : α → ε → Prop} (hx : Clean planned x)
    (hf : ∀ a, x = .ok a → Failing planned (f a) (R a)) :
    Failing planned (x >>= f) fun e => ∃ a, x = .ok a ∧ R a e :=
  (hx.bind hf).congr fun _ => by simp

theorem ok_bind {f : α → Except ε β} {a : α} {P : ε → Prop} (hx : x = .ok a)
    (hf : Failing planned (f a) P) : Failing planned (x >>= f) P := hx ▸ hf

/-- A sequence of checks without a result. -/
theorem seq {u : Except ε Unit} {y : Except ε β} (hu : Failing planned u P)
    (hy : u = .ok () → Failing planned y Q) :
    Failing planned (u >>= fun _ => y) fun e => P e ∨ (u = .ok () ∧ Q e) :=
  (hu.bind fun _ h => hy h).congr fun _ => or_congr_right ⟨fun ⟨_, h⟩ => h, fun h => ⟨(), h⟩⟩

theorem forM {f : α → Except ε Unit} {R : α → ε → Prop} (l : List α)
    (hf : ∀ a ∈ l, Failing planned (f a) (R a)) :
    Failing planned (l.forM f) fun e => ∃ before a after, l = before ++ a :: after ∧
      (∀ b ∈ before, f b = .ok ()) ∧ R a e := by
  induction l with
  | nil => exact (ok ()).congr fun e => by simp
  | cons a l ih =>
    have hl := ih fun b hb => hf b (List.mem_cons_of_mem _ hb)
    refine ((hf a (List.mem_cons_self ..)).seq fun _ => hl).congr fun e => ?_
    constructor
    · rintro (h | ⟨ha, before, b, after, rfl, hbefore, h⟩)
      · exact ⟨[], a, l, rfl, nofun, h⟩
      · exact ⟨a :: before, b, after, rfl, List.forall_mem_cons.mpr ⟨ha, hbefore⟩, h⟩
    · rintro ⟨before, b, after, hsplit, hbefore, h⟩
      cases before with
      | nil =>
        obtain ⟨rfl, rfl⟩ := List.cons.inj hsplit
        exact .inl h
      | cons c before =>
        obtain ⟨rfl, rfl⟩ := List.cons.inj hsplit
        obtain ⟨ha, hbefore⟩ := List.forall_mem_cons.mp hbefore
        exact .inr ⟨ha, before, b, after, rfl, hbefore, h⟩

/-- Only planned failures happen exactly when nothing else is described. -/
theorem planned_iff (h : Failing planned x P) (hP : ∀ e, P e → ¬ planned e) :
    (∀ e, x = .error e → planned e) ↔ ∀ e, ¬ P e :=
  ⟨fun hx e he => hP e he (hx e (h.complete e he)),
    fun hnot e he => (h.sound e he).resolve_right (hnot e)⟩

end Failing

theorem Clean.bind {x : Except ε α} {f : α → Except ε β} (hx : Clean planned x)
    (hf : ∀ a, x = .ok a → Clean planned (f a)) : Clean planned (x >>= f) :=
  (hx.clean_bind hf).congr fun _ => by simp

theorem Clean.forM {f : α → Except ε Unit} (l : List α) (hf : ∀ a, Clean planned (f a)) :
    Clean planned (l.forM f) :=
  (Failing.forM l fun a _ => hf a).congr fun _ => by simp

end Lib
