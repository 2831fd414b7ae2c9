import Mathlib.Data.List.Basic

/-!
# Replay

Sequences of events read by a transition relation, and resources that are taken and given back in
the manner of a stack.

* `Run step s es s'`: the events `es` take `s` to `s'`, one step each.
* `Held effect`: the step relation on the stack of resources held. Nothing is used or given back
  that is not held, and what is given back is what was taken last. Over a run, what was taken is
  what was given back and what is still held (`Run.acquired_perm`).
-/

namespace Replay

section Run

variable {ε S S' : Type} {step : S → ε → S → Prop}

inductive Run (step : S → ε → S → Prop) : S → List ε → S → Prop where
  | nil {s : S} : Run step s [] s
  | cons {s s' s'' : S} {e : ε} {es : List ε} :
      step s e s' → Run step s' es s'' → Run step s (e :: es) s''

namespace Run

theorem single {s s' : S} {e : ε} (h : step s e s') : Run step s [e] s' := .cons h .nil

theorem append {s s' s'' : S} {es es' : List ε} (h : Run step s es s')
    (h' : Run step s' es' s'') : Run step s (es ++ es') s'' := by
  induction h with
  | nil => exact h'
  | cons hstep _ ih => exact .cons hstep (ih h')

/-- A run passes through a state at each moment. -/
theorem split {s s'' : S} {es es' : List ε} (h : Run step s (es ++ es') s'') :
    ∃ s', Run step s es s' ∧ Run step s' es' s'' := by
  induction es generalizing s with
  | nil => exact ⟨s, .nil, h⟩
  | cons e es ih =>
    cases h with
    | cons hstep hrest =>
      obtain ⟨s', hes, hes'⟩ := ih hrest
      exact ⟨s', .cons hstep hes, hes'⟩

theorem map {step' : S' → ε → S' → Prop} {f : S → S'}
    (hf : ∀ {s e s'}, step s e s' → step' (f s) e (f s')) {s s' : S} {es : List ε}
    (h : Run step s es s') : Run step' (f s) es (f s') := by
  induction h with
  | nil => exact .nil
  | cons hstep _ ih => exact .cons (hf hstep) ih

end Run

end Run

/-! ## Resources held as a stack -/

section Held

variable {ε η : Type}

/-- What an event does with the resources `η`. With `invalid` it names one that cannot be. -/
inductive Effect (η : Type) where
  | acquire (h : η)
  | use (h : η)
  | release (h : η)
  | idle
  | invalid

inductive Held (effect : ε → Effect η) : List η → ε → List η → Prop where
  | acquire {st : List η} {e : ε} {h : η} : effect e = .acquire h → Held effect st e (h :: st)
  | use {st : List η} {e : ε} {h : η} : effect e = .use h → h ∈ st → Held effect st e st
  | release {st : List η} {e : ε} {h : η} : effect e = .release h → Held effect (h :: st) e st
  | idle {st : List η} {e : ε} : effect e = .idle → Held effect st e st

def Effect.acquired : Effect η → Option η
  | .acquire h => some h
  | _ => none

def Effect.released : Effect η → Option η
  | .release h => some h
  | _ => none

/-- All that was held or has been taken has been given back or is held still. -/
theorem Run.acquired_perm {effect : ε → Effect η} {st st' : List η} {es : List ε}
    (h : Run (Held effect) st es st') :
    (st ++ es.filterMap fun e => (effect e).acquired).Perm
      (st' ++ es.filterMap fun e => (effect e).released) := by
  induction h with
  | nil => exact .refl _
  | cons hstep _ ih =>
    cases hstep with
    | acquire he =>
      simp only [List.filterMap_cons, he, Effect.acquired, Effect.released]
      exact List.perm_middle.trans ih
    | use he _ =>
      simp only [List.filterMap_cons, he, Effect.acquired, Effect.released]
      exact ih
    | release he =>
      simp only [List.filterMap_cons, he, Effect.acquired, Effect.released]
      exact (ih.cons _).trans List.perm_middle.symm
    | idle he =>
      simp only [List.filterMap_cons, he, Effect.acquired, Effect.released]
      exact ih

end Held

end Replay
