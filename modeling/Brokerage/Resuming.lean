/-
**Passes that can be done again.**

A pass goes through a list and changes a state step by step, until a step fails.  If a step changes
nothing when it is done again, even after other steps, then a pass that was stopped can be taken up
from the start: the elements that are over are passed without a change.  Nothing in this module
refers to a particular state.

Main definitions:

* `Resuming.Settled` — doing an element again changes nothing;
* `Resuming.Resumable` — elements are settled when they are done, and stay so.

Main results:

* `Resuming.settled_of_foldlM` — the elements of a pass are settled after it;
* `Resuming.foldlM_of_settled` — a pass over settled elements changes nothing;
* `Resuming.foldlM_resume` — a pass after a part of it ends like the pass alone.
-/

import Mathlib

set_option relaxedAutoImplicit false
set_option autoImplicit false

namespace Resuming

variable {α ε σ : Type} {step : σ → α → Except ε σ} {s t : σ} {l l' : List α}

/-- Doing an element again changes nothing. -/
def Settled (step : σ → α → Except ε σ) (s : σ) (a : α) : Prop := step s a = .ok s

/-- An element that was done is settled, and the other elements leave it so. -/
structure Resumable (step : σ → α → Except ε σ) : Prop where
  again : ∀ s t a, step s a = .ok t → Settled step t a
  keeps : ∀ s t a b, Settled step s a → step s b = .ok t → Settled step t a

theorem foldlM_cons_eq_ok {a : α} :
    (a :: l).foldlM step s = .ok t ↔ ∃ u, step s a = .ok u ∧ l.foldlM step u = .ok t := by
  rw [List.foldlM_cons]
  cases step s a with
  | error e => exact iff_of_false (fun h => by cases h) (by rintro ⟨_, ⟨⟩, _⟩)
  | ok u =>
      constructor
      · exact fun h => ⟨u, rfl, h⟩
      · rintro ⟨v, hv, h⟩
        obtain rfl := Except.ok.inj hv
        exact h

/-- What is settled before a pass is settled after it. -/
theorem Resumable.settled_foldlM (hstep : Resumable step) {a : α} (ha : Settled step s a)
    (h : l.foldlM step s = .ok t) : Settled step t a := by
  induction l generalizing s with
  | nil =>
      obtain rfl : s = t := Except.ok.inj h
      exact ha
  | cons b l ih =>
      obtain ⟨u, hu, hrest⟩ := foldlM_cons_eq_ok.1 h
      exact ih (hstep.keeps s u a b ha hu) hrest

/-- The elements of a pass are settled after it. -/
theorem settled_of_foldlM (hstep : Resumable step) (h : l.foldlM step s = .ok t) :
    ∀ a ∈ l, Settled step t a := by
  induction l generalizing s with
  | nil => exact fun a ha => absurd ha List.not_mem_nil
  | cons b l ih =>
      obtain ⟨u, hu, hrest⟩ := foldlM_cons_eq_ok.1 h
      intro a ha
      rcases List.mem_cons.1 ha with rfl | ha
      · exact hstep.settled_foldlM (hstep.again s u a hu) hrest
      · exact ih hrest a ha

/-- A pass over settled elements changes nothing. -/
theorem foldlM_of_settled (h : ∀ a ∈ l, Settled step s a) : l.foldlM step s = .ok s := by
  induction l with
  | nil => rfl
  | cons a l ih =>
      exact foldlM_cons_eq_ok.2
        ⟨s, h a List.mem_cons_self, ih fun b hb => h b (List.mem_cons_of_mem _ hb)⟩

/-- A pass that begins where a part of it has ended ends like the pass alone. -/
theorem foldlM_resume (hstep : Resumable step) (h : l.foldlM step s = .ok t) :
    (l ++ l').foldlM step t = (l ++ l').foldlM step s := by
  rw [List.foldlM_append, List.foldlM_append, h, foldlM_of_settled (settled_of_foldlM hstep h)]

end Resuming
