/-
**Labelled transition functions, their runs, and invariants of runs.**

A system is given by an executable step function `step : σ → ε → Option σ`: from the state `s` the
label `e` is enabled when `step s e` is `some t`, and then leads to `t`.  The labels carry whatever
the environment decides — which task runs next, what a call to the outside returned — so a run is
a list of labels and nothing is left nondeterministic.  Nothing in this module refers to a
particular system.

Main definitions:

* `Transition.exec` — the state reached by a run, if every label of it is enabled;
* `Transition.Meets` — every step of the run is taken from a state, and with a label, that satisfy
  a condition.

Main results:

* `Transition.exec_invariant` — an invariant of the steps is an invariant of the runs;
* `Transition.exec_history` — the same for an invariant that remembers the labels so far;
* `Transition.exec_invariant_of_meets` — the same for an invariant that is kept only by the steps
  meeting a condition;
* `Transition.exec_simulation_of_meets` — the same for a relation to an abstract state.
-/

import Mathlib.Tactic.TypeStar

set_option relaxedAutoImplicit false
set_option autoImplicit false

namespace Transition

variable {σ ε : Type*}

/-! ### Runs -/

/-- The state reached from `s` by the labels `es`, if each of them is enabled in turn. -/
def exec (step : σ → ε → Option σ) : σ → List ε → Option σ
  | s, [] => some s
  | s, e :: es =>
      match step s e with
      | none => none
      | some t => exec step t es

variable {step : σ → ε → Option σ}

@[simp] theorem exec_nil (s : σ) : exec step s [] = some s := rfl

theorem exec_cons_of_eq {s t : σ} {e : ε} (h : step s e = some t) (es : List ε) :
    exec step s (e :: es) = exec step t es := by
  simp only [exec, h]

/-- A run that goes through its first label is a step followed by the rest of the run. -/
theorem exec_cons_eq_some {s u : σ} {e : ε} {es : List ε} :
    exec step s (e :: es) = some u ↔ ∃ t, step s e = some t ∧ exec step t es = some u := by
  cases h : step s e with
  | none => simp [exec, h]
  | some t => simp [exec, h]

/-- Runs compose. -/
theorem exec_append {s t : σ} {es fs : List ε} (h : exec step s es = some t) :
    exec step s (es ++ fs) = exec step t fs := by
  induction es generalizing s with
  | nil =>
      obtain rfl : s = t := by simpa using h
      rfl
  | cons e es ih =>
      obtain ⟨s', hs, hrest⟩ := exec_cons_eq_some.1 h
      rw [List.cons_append, exec_cons_of_eq hs, ih hrest]

/-! ### Invariants -/

/-- What every step preserves, every run preserves. -/
theorem exec_invariant {I : σ → Prop}
    (hstep : ∀ s e t, I s → step s e = some t → I t) {s t : σ} {es : List ε}
    (hs : I s) (h : exec step s es = some t) : I t := by
  induction es generalizing s with
  | nil =>
      obtain rfl : s = t := by simpa using h
      exact hs
  | cons e es ih =>
      obtain ⟨s', hse, hrest⟩ := exec_cons_eq_some.1 h
      exact ih (hstep s e s' hs hse) hrest

/-- What every step preserves of a state and the labels that led to it, every run preserves. -/
theorem exec_history {I : List ε → σ → Prop}
    (hstep : ∀ es s e t, I es s → step s e = some t → I (es ++ [e]) t) {fs : List ε} {s t : σ}
    {es : List ε} (hs : I fs s) (h : exec step s es = some t) : I (fs ++ es) t := by
  induction es generalizing s fs with
  | nil =>
      obtain rfl : s = t := by simpa using h
      simpa using hs
  | cons e es ih =>
      obtain ⟨s', hse, hrest⟩ := exec_cons_eq_some.1 h
      simpa using ih (hstep fs s e s' hs hse) hrest

/-! ### Runs whose steps meet a condition -/

/-- Every step of the run from `s` along `es` is taken from a state and with a label that satisfy
`P`.  A label that is not enabled ends the run. -/
def Meets (step : σ → ε → Option σ) (P : σ → ε → Prop) : σ → List ε → Prop
  | _, [] => True
  | s, e :: es =>
      P s e ∧
        match step s e with
        | none => True
        | some t => Meets step P t es

variable {P : σ → ε → Prop}

instance Meets.decidable [∀ s e, Decidable (P s e)] :
    ∀ (s : σ) (es : List ε), Decidable (Meets step P s es)
  | _, [] => inferInstanceAs (Decidable True)
  | s, e :: es =>
      match h : step s e with
      | none => decidable_of_iff (P s e) (by simp only [Meets, h, and_true])
      | some t =>
          have := Meets.decidable t es
          decidable_of_iff (P s e ∧ Meets step P t es) (by simp only [Meets, h])

theorem Meets.head {s : σ} {e : ε} {es : List ε} (h : Meets step P s (e :: es)) : P s e := h.1

theorem Meets.tail {s t : σ} {e : ε} {es : List ε} (h : Meets step P s (e :: es))
    (hse : step s e = some t) : Meets step P t es := by
  have h2 := h.2
  simpa only [hse] using h2

/-- Runs that meet two conditions meet both at once. -/
theorem Meets.and {Q : σ → ε → Prop} {s : σ} {es : List ε} (hP : Meets step P s es)
    (hQ : Meets step Q s es) : Meets step (fun s e => P s e ∧ Q s e) s es := by
  induction es generalizing s with
  | nil => trivial
  | cons e es ih =>
      refine ⟨⟨hP.head, hQ.head⟩, ?_⟩
      cases hse : step s e with
      | none => trivial
      | some t => exact ih (hP.tail hse) (hQ.tail hse)

/-- The beginning of a run that meets a condition meets it. -/
theorem Meets.of_append_left {s : σ} {es fs : List ε} (hP : Meets step P s (es ++ fs)) :
    Meets step P s es := by
  induction es generalizing s with
  | nil => trivial
  | cons e es ih =>
      rw [List.cons_append] at hP
      refine ⟨hP.head, ?_⟩
      cases hse : step s e with
      | none => trivial
      | some t => exact ih (hP.tail hse)

/-- The rest of a run that meets a condition meets it. -/
theorem Meets.of_append {s t : σ} {es fs : List ε} (hP : Meets step P s (es ++ fs))
    (h : exec step s es = some t) : Meets step P t fs := by
  induction es generalizing s with
  | nil =>
      obtain rfl : s = t := by simpa using h
      exact hP
  | cons e es ih =>
      obtain ⟨s', hse, hrest⟩ := exec_cons_eq_some.1 h
      rw [List.cons_append] at hP
      exact ih (hP.tail hse) hrest

/-- A condition on the labels alone is met by every run along such labels. -/
theorem meets_of_forall {Q : ε → Prop} {es : List ε} (h : ∀ e ∈ es, Q e) (s : σ) :
    Meets step (fun _ e => Q e) s es := by
  induction es generalizing s with
  | nil => trivial
  | cons e es ih =>
      refine ⟨h e List.mem_cons_self, ?_⟩
      cases step s e with
      | none => trivial
      | some t => exact ih (fun f hf => h f (List.mem_cons_of_mem _ hf)) t

/-- A condition that all steps satisfy is met by every run. -/
theorem meets_of_always (h : ∀ s e, P s e) (s : σ) (es : List ε) : Meets step P s es := by
  induction es generalizing s with
  | nil => trivial
  | cons e es ih =>
      refine ⟨h s e, ?_⟩
      cases step s e with
      | none => trivial
      | some t => exact ih t

/-- What every step meeting `P` preserves, every run all of whose steps meet `P` preserves. -/
theorem exec_invariant_of_meets {I : σ → Prop}
    (hstep : ∀ s e t, I s → P s e → step s e = some t → I t) {s t : σ} {es : List ε}
    (hs : I s) (hP : Meets step P s es) (h : exec step s es = some t) : I t := by
  induction es generalizing s with
  | nil =>
      obtain rfl : s = t := by simpa using h
      exact hs
  | cons e es ih =>
      obtain ⟨s', hse, hrest⟩ := exec_cons_eq_some.1 h
      exact ih (hstep s e s' hs hP.head hse) (hP.tail hse) hrest

/-- A relation to an abstract state that every step meeting `P` keeps, while the abstract state
moves by `next`, holds after every run all of whose steps meet `P`. -/
theorem exec_simulation_of_meets {α : Type*} (next : α → ε → α) {R : σ → α → Prop}
    (hstep : ∀ s a e t, R s a → P s e → step s e = some t → R t (next a e)) {s t : σ} {a : α}
    {es : List ε} (hs : R s a) (hP : Meets step P s es) (h : exec step s es = some t) :
    R t (es.foldl next a) := by
  induction es generalizing s a with
  | nil =>
      obtain rfl : s = t := by simpa using h
      exact hs
  | cons e es ih =>
      obtain ⟨s', hse, hrest⟩ := exec_cons_eq_some.1 h
      exact ih (hstep s a e s' hs hP.head hse) (hP.tail hse) hrest

end Transition
