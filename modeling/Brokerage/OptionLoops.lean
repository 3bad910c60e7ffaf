/-
**Loops that may fail.**

A loop over a list changes a state step by step and stops with nothing at the first step that fails.
Two such loops with related steps have related results, and a loop whose steps never fail does not
fail.  Nothing in this module refers to a particular state.

Main results:

* `List.foldlM_rel` — related steps give related results;
* `List.foldlM_eq_some_of_invariant` — an invariant under which no step fails;
* `List.foldlM_zipIdx_invariant` — an invariant that depends on the number of the steps;
* `List.length_mapM` — a loop that collects a result for each element.
-/

import Mathlib.Data.List.Forall2

set_option relaxedAutoImplicit false
set_option autoImplicit false

variable {α β σ τ : Type}

namespace List

/-- Loops over related lists with related steps fail together, or have related results. -/
theorem foldlM_rel {R : σ → τ → Prop} {S : α → β → Prop} {f : σ → α → Option σ}
    {g : τ → β → Option τ} {l : List α} {l' : List β} {s : σ} {t : τ}
    (hstep : ∀ s t a b, R s t → S a b → Option.Rel R (f s a) (g t b)) (h : Forall₂ S l l')
    (hR : R s t) : Option.Rel R (l.foldlM f s) (l'.foldlM g t) := by
  induction h generalizing s t with
  | nil => exact Option.Rel.some hR
  | @cons a b l l' hab _ ih =>
      rw [foldlM_cons, foldlM_cons]
      have hrel := hstep s t a b hR hab
      cases hf : f s a <;> cases hg : g t b <;> rw [hf, hg] at hrel <;> cases hrel
      · exact Option.Rel.none
      · rename_i hrel
        exact ih hrel

/-- A loop does not fail if its steps do not fail under an invariant, and keep it. -/
theorem foldlM_eq_some_of_invariant {I : σ → Prop} {f : σ → α → Option σ} {l : List α} {s : σ}
    (hstep : ∀ s, ∀ a ∈ l, I s → ∃ t, f s a = some t ∧ I t) (h : I s) :
    ∃ t, l.foldlM f s = some t ∧ I t := by
  induction l generalizing s with
  | nil => exact ⟨s, rfl, h⟩
  | cons a l ih =>
      obtain ⟨t, ht, hI⟩ := hstep s a mem_cons_self h
      obtain ⟨u, hu, hIu⟩ := ih (fun s b hb => hstep s b (mem_cons_of_mem _ hb)) hI
      refine ⟨u, ?_, hIu⟩
      rw [foldlM_cons, ht]
      exact hu

/-- What every step keeps, of the number of the steps before it and the state, holds after a loop. -/
theorem foldlM_zipIdx_invariant {I : ℕ → σ → Prop} {f : σ → α × ℕ → Option σ} {l : List α} {s t : σ}
    (hstep : ∀ n s a t, l[n]? = some a → I n s → f s (a, n) = some t → I (n + 1) t) (hs : I 0 s)
    (h : l.zipIdx.foldlM f s = some t) : I l.length t := by
  have hrest : ∀ (rest : List α) (n : ℕ) (s : σ), (∀ j a, rest[j]? = some a → l[n + j]? = some a) →
      I n s → (rest.zipIdx n).foldlM f s = some t → I (n + rest.length) t := by
    intro rest
    induction rest with
    | nil =>
        intro n s _ hs h
        obtain rfl : s = t := by simpa using h
        exact hs
    | cons a rest ih =>
        intro n s hget hs h
        rw [zipIdx_cons, foldlM_cons] at h
        obtain ⟨s', hs', h⟩ := Option.bind_eq_some_iff.1 h
        have hnext := ih (n + 1) s' (fun j b hb => by
          rw [Nat.add_right_comm, Nat.add_assoc]
          exact hget (j + 1) b hb) (hstep n s a s' (hget 0 a rfl) hs hs') h
        rwa [length_cons, Nat.add_comm rest.length 1, ← Nat.add_assoc]
  have hall := hrest l 0 s (fun j a ha => by rwa [Nat.zero_add]) hs h
  rwa [Nat.zero_add] at hall

/-- There are as many results as elements. -/
theorem length_mapM {f : α → Option β} {l : List α} {bs : List β} (h : l.mapM f = some bs) :
    bs.length = l.length := by
  induction l generalizing bs with
  | nil =>
      obtain rfl : [] = bs := Option.some.inj h
      rfl
  | cons a l ih =>
      rw [mapM_cons] at h
      obtain ⟨b, -, h⟩ := Option.bind_eq_some_iff.1 h
      obtain ⟨bs', hbs', h⟩ := Option.bind_eq_some_iff.1 h
      obtain rfl : b :: bs' = bs := Option.some.inj h
      rw [length_cons, length_cons, ih hbs']

end List
