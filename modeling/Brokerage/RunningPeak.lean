/-
**The deepest fall from a running peak.**

A value changes with each element of a list.  One pass that keeps the peak so far and the deepest fall
from it finds the deepest of all falls from an earlier value to a later one, where a fall to a value is
no less from a higher one.  Nothing in this module refers to particular values.

Main definitions:

* `RunningPeak.after` — the value after some elements;
* `RunningPeak.State`, `RunningPeak.State.step` — the pass;
* `RunningPeak.falls` — the falls from earlier values to later ones.

Main results:

* `RunningPeak.Tracked.step` — what a step keeps;
* `RunningPeak.tracked_foldl` — the pass finds the peak and the deepest fall.
-/

import Mathlib.Data.List.Induction
import Mathlib.Order.Bounds.Basic
import Mathlib.Order.MinMax

set_option relaxedAutoImplicit false
set_option autoImplicit false

namespace RunningPeak

variable {V X D : Type*}

/-- The value after some elements of a list. -/
def after (f : V → X → V) (v₀ : V) (xs : List X) (i : ℕ) : V := (xs.take i).foldl f v₀

/-- The value, its peak, and the deepest fall so far. -/
structure State (V D : Type*) where
  value : V
  peak : V
  deepest : D

/-- The falls from a value to itself or a later one. -/
def falls (f : V → X → V) (fall : V → V → D) (v₀ : V) (xs : List X) : Set D :=
  {d | ∃ i j, i ≤ j ∧ j ≤ xs.length ∧ d = fall (after f v₀ xs i) (after f v₀ xs j)}

variable {f : V → X → V} {fall : V → V → D} {v₀ : V} {xs : List X}

theorem after_append (x : X) {i : ℕ} (h : i ≤ xs.length) :
    after f v₀ (xs ++ [x]) i = after f v₀ xs i := by
  rw [after, after, List.take_append_of_le_length h]

theorem after_append_length (x : X) :
    after f v₀ (xs ++ [x]) (xs.length + 1) = f (after f v₀ xs xs.length) x := by
  have hall : (xs ++ [x]).take (xs.length + 1) = xs ++ [x] := List.take_of_length_le (by simp)
  rw [after, after, hall, List.take_length, List.foldl_append]
  rfl

/-- An index of a longer list is one of the shorter list, or the last one. -/
theorem le_length_append (x : X) {i : ℕ} (h : i ≤ (xs ++ [x]).length) :
    i ≤ xs.length ∨ i = xs.length + 1 := by
  rw [List.length_append, List.length_singleton] at h
  omega

variable [LinearOrder V] [LinearOrder D]

/-- An element of the list. -/
def State.step (f : V → X → V) (fall : V → V → D) (s : State V D) (x : X) : State V D :=
  let value := f s.value x
  let peak := if s.peak < value then value else s.peak
  let drop := fall peak value
  ⟨value, peak, if s.deepest < drop then drop else s.deepest⟩

/-- What a state says of the elements so far. -/
structure Tracked (f : V → X → V) (fall : V → V → D) (v₀ : V) (xs : List X) (s : State V D) : Prop where
  value : s.value = after f v₀ xs xs.length
  peak : IsGreatest {v | ∃ i ≤ xs.length, v = after f v₀ xs i} s.peak
  deepest : IsGreatest (falls f fall v₀ xs) s.deepest

/-- The greatest of the values so far and of a new one. -/
theorem isGreatest_max_peak {peak value : V} (x : X)
    (h : IsGreatest {v | ∃ i ≤ xs.length, v = after f v₀ xs i} peak)
    (hvalue : value = after f v₀ (xs ++ [x]) (xs.length + 1)) :
    IsGreatest {v | ∃ i ≤ (xs ++ [x]).length, v = after f v₀ (xs ++ [x]) i} (max peak value) := by
  have hlength : (xs ++ [x]).length = xs.length + 1 := List.length_append
  constructor
  · rcases max_choice peak value with hmax | hmax
    · obtain ⟨i, hi, hpeak⟩ := h.1
      exact ⟨i, by omega, by rw [hmax, hpeak, after_append x hi]⟩
    · exact ⟨xs.length + 1, hlength.ge, by rw [hmax, hvalue]⟩
  · rintro v ⟨i, hi, rfl⟩
    rcases le_length_append x hi with hi | rfl
    · rw [after_append x hi]
      exact (h.2 ⟨i, hi, rfl⟩).trans (le_max_left _ _)
    · rw [← hvalue]
      exact le_max_right _ _

/-- The deepest of the falls so far and of the one from the peak to a new value, if a fall to this value is
no less from a higher one. -/
theorem isGreatest_max_deepest {deepest : D} {peak value : V} (x : X)
    (h : IsGreatest (falls f fall v₀ xs) deepest)
    (hpeak : IsGreatest {v | ∃ i ≤ (xs ++ [x]).length, v = after f v₀ (xs ++ [x]) i} peak)
    (hvalue : value = after f v₀ (xs ++ [x]) (xs.length + 1))
    (hmono : ∀ i ≤ (xs ++ [x]).length, ∀ j ≤ (xs ++ [x]).length,
      after f v₀ (xs ++ [x]) i ≤ after f v₀ (xs ++ [x]) j →
        fall (after f v₀ (xs ++ [x]) i) value ≤ fall (after f v₀ (xs ++ [x]) j) value) :
    IsGreatest (falls f fall v₀ (xs ++ [x])) (max deepest (fall peak value)) := by
  have hlength : (xs ++ [x]).length = xs.length + 1 := List.length_append
  obtain ⟨k, hk, hp⟩ := hpeak.1
  constructor
  · rcases max_choice deepest (fall peak value) with hmax | hmax
    · obtain ⟨i, j, hij, hj, hd⟩ := h.1
      exact ⟨i, j, hij, by omega, by rw [hmax, hd, after_append x (hij.trans hj), after_append x hj]⟩
    · exact ⟨k, xs.length + 1, by omega, hlength.ge, by rw [hmax, ← hp, ← hvalue]⟩
  · rintro d ⟨i, j, hij, hj, rfl⟩
    rcases le_length_append x hj with hj | rfl
    · rw [after_append x (hij.trans hj), after_append x hj]
      exact (h.2 ⟨i, j, hij, hj, rfl⟩).trans (le_max_left _ _)
    · have hle := hpeak.2 ⟨i, hij.trans hlength.ge, rfl⟩
      rw [hp] at hle ⊢
      rw [← hvalue]
      exact (hmono i (hij.trans hlength.ge) k hk hle).trans (le_max_right _ _)

/-- A step keeps what the state says, if a fall to the new value is no less from a higher one. -/
theorem Tracked.step {s : State V D} (h : Tracked f fall v₀ xs s) (x : X)
    (hmono : ∀ i ≤ (xs ++ [x]).length, ∀ j ≤ (xs ++ [x]).length,
      after f v₀ (xs ++ [x]) i ≤ after f v₀ (xs ++ [x]) j →
        fall (after f v₀ (xs ++ [x]) i) (f s.value x) ≤ fall (after f v₀ (xs ++ [x]) j) (f s.value x)) :
    Tracked f fall v₀ (xs ++ [x]) (s.step f fall x) := by
  have hlength : (xs ++ [x]).length = xs.length + 1 := List.length_append
  have hvalue : f s.value x = after f v₀ (xs ++ [x]) (xs.length + 1) := by
    rw [after_append_length, h.value]
  have hpeak := isGreatest_max_peak x h.peak hvalue
  have hdeepest := isGreatest_max_deepest x h.deepest hpeak hvalue hmono
  have hstep : s.step f fall x = ⟨f s.value x, max s.peak (f s.value x),
      max s.deepest (fall (max s.peak (f s.value x)) (f s.value x))⟩ := by
    simp only [State.step, max_def_lt]
  rw [hstep]
  exact ⟨by rw [hlength, hvalue], hpeak, hdeepest⟩

/-- The pass finds the peak and the deepest fall. -/
theorem tracked_foldl (f : V → X → V) (fall : V → V → D) (v₀ : V) (xs : List X)
    (hmono : ∀ i ≤ xs.length, ∀ j ≤ xs.length, ∀ k ≤ xs.length,
      after f v₀ xs i ≤ after f v₀ xs j →
        fall (after f v₀ xs i) (after f v₀ xs k) ≤ fall (after f v₀ xs j) (after f v₀ xs k)) :
    Tracked f fall v₀ xs (xs.foldl (State.step f fall) ⟨v₀, v₀, fall v₀ v₀⟩) := by
  induction xs using List.reverseRecOn with
  | nil =>
      refine ⟨rfl, ⟨⟨0, le_rfl, rfl⟩, ?_⟩, ⟨0, 0, le_rfl, le_rfl, rfl⟩, ?_⟩
      · rintro v ⟨i, -, rfl⟩
        simp [after]
      · rintro d ⟨i, j, -, -, rfl⟩
        simp [after]
  | append_singleton xs x ih =>
      have hlength : (xs ++ [x]).length = xs.length + 1 := List.length_append
      have hold : Tracked f fall v₀ xs (xs.foldl (State.step f fall) ⟨v₀, v₀, fall v₀ v₀⟩) := by
        refine ih fun i hi j hj k hk hle => ?_
        rw [← after_append x hi, ← after_append x hj] at hle ⊢
        rw [← after_append x hk]
        exact hmono i (by omega) j (by omega) k (by omega) hle
      rw [List.foldl_append]
      refine hold.step x fun i hi j hj hle => ?_
      rw [hold.value, ← after_append_length (f := f) x]
      exact hmono i hi j hj _ hlength.ge hle

end RunningPeak
