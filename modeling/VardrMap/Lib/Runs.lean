import Mathlib.Logic.Relation

/-!
# Runs of a labelled step relation

A step goes from a state to a state and emits a list of labels; a run is a sequence of
steps and emits the labels of all of them in order. The rules carry an invariant, and a
relation between the first and the last state, from single steps to whole runs.
-/
namespace Lib

variable {σ ε : Type}

/-- Finitely many steps, with the labels they emit. -/
inductive Run (step : σ → List ε → σ → Prop) : σ → List ε → σ → Prop
  | refl (s : σ) : Run step s [] s
  | tail {s t u : σ} {es fs : List ε} (run : Run step s es t) (last : step t fs u) :
      Run step s (es ++ fs) u

namespace Run

variable {step : σ → List ε → σ → Prop} {s t u : σ} {es fs : List ε}

theorem single (h : step s es t) : Run step s es t := by
  simpa using Run.tail (Run.refl s) h

theorem trans (h : Run step s es t) (h' : Run step t fs u) : Run step s (es ++ fs) u := by
  induction h' with
  | refl => simpa using h
  | tail run last ih =>
    rw [← List.append_assoc]
    exact Run.tail ih last

/-- A step in front of a run. -/
theorem head (h : step s es t) (h' : Run step t fs u) : Run step s (es ++ fs) u :=
  (single h).trans h'

/-- What every step preserves, a run preserves. -/
theorem invariant (inv : σ → Prop) (hstep : ∀ {s t : σ} {es : List ε}, inv s → step s es t → inv t)
    (h : Run step s es t) (hs : inv s) : inv t := by
  induction h with
  | refl => exact hs
  | tail _ last ih => exact hstep ih last

/-- An invariant of the state and of the labels emitted so far. -/
theorem traceInvariant (inv : List ε → σ → Prop)
    (hstep : ∀ {s t : σ} {es fs : List ε}, inv es s → step s fs t → inv (es ++ fs) t)
    (h : Run step s fs t) (hs : inv es s) : inv (es ++ fs) t := by
  induction h with
  | refl => simpa using hs
  | tail _ last ih =>
    rw [← List.append_assoc]
    exact hstep ih last

/-- A reflexive and transitive relation that holds across every step from a state with the
invariant holds across a run. -/
theorem relates (inv : σ → Prop) (rel : σ → σ → Prop)
    (hstep : ∀ {s t : σ} {es : List ε}, inv s → step s es t → inv t)
    (hrel : ∀ {s t : σ} {es : List ε}, inv s → step s es t → rel s t)
    (hrefl : ∀ s, rel s s) (htrans : ∀ {s t u : σ}, rel s t → rel t u → rel s u)
    (h : Run step s es t) (hs : inv s) : rel s t := by
  induction h with
  | refl => exact hrefl _
  | tail run last ih => exact htrans ih (hrel (run.invariant inv hstep hs) last)

/-- A label of a run is one of a step, with a run before it and one after it. -/
theorem split {e : ε} (h : Run step s (es ++ e :: fs) t) :
    ∃ u v es₁ es₂ fs₁ fs₂, es = es₁ ++ es₂ ∧ fs = fs₁ ++ fs₂ ∧ Run step s es₁ u ∧
      step u (es₂ ++ e :: fs₁) v ∧ Run step v fs₂ t := by
  generalize hall : es ++ e :: fs = all at h
  induction h generalizing fs with
  | refl => simp at hall
  | @tail t u gs hs run last ih =>
    rcases List.append_eq_append_iff.mp hall with ⟨cs, hgs, hcs⟩ | ⟨cs, hes, hhs⟩
    · cases cs with
      | nil =>
        have hes : gs = es := by simpa using hgs
        subst hes hcs
        exact ⟨t, u, gs, [], fs, [], (List.append_nil _).symm, (List.append_nil _).symm, run, last,
          .refl u⟩
      | cons c cs =>
        obtain ⟨rfl, rfl⟩ := List.cons.inj hcs
        obtain ⟨v, w, es₁, es₂, fs₁, fs₂, rfl, rfl, hbefore, hstep, hafter⟩ := ih hgs.symm
        exact ⟨v, w, es₁, es₂, fs₁, fs₂ ++ hs, rfl, List.append_assoc .., hbefore, hstep,
          hafter.tail last⟩
    · subst hes hhs
      exact ⟨t, u, gs, cs, fs, [], rfl, (List.append_nil _).symm, run, last, .refl u⟩

/-- Another system that follows every step, seeing some of the labels, follows a run. -/
theorem simulate {τ δ : Type} {step' : τ → List δ → τ → Prop} (view : σ → τ) (sees : ε → Option δ)
    (hstep : ∀ {s t : σ} {es : List ε}, step s es t →
      Run step' (view s) (es.filterMap sees) (view t))
    (h : Run step s es t) : Run step' (view s) (es.filterMap sees) (view t) := by
  induction h with
  | refl => exact .refl _
  | tail _ last ih =>
    rw [List.filterMap_append]
    exact ih.trans (hstep last)

end Run
end Lib
