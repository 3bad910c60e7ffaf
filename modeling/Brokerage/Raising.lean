/-
**Computations on a state that may raise.**

A computation changes a state and may raise, and what it changed before stays changed.  It is
described by a condition before it and two after it: one for when it went through, one for when it
raised.  There is one rule for each way to put computations together.  Nothing in this module
refers to a particular state.

Main definitions:

* `Ensures` — a condition before, and two after, a computation.

Main results:

* `Ensures.bind`, `Ensures.forM` — sequences and loops;
* `Ensures.after` — what holds after, whether it raised or not.
-/

import Mathlib

set_option relaxedAutoImplicit false
set_option autoImplicit false

variable {ε σ α β : Type}

/-- From a state with `P` the computation goes through with a result and a state with `Q`, or it
raises in a state with `R`. -/
def Ensures (P : σ → Prop) (x : EStateM ε σ α) (Q : α → σ → Prop) (R : σ → Prop) : Prop :=
  ∀ s, P s → match x s with
    | .ok a t => Q a t
    | .error _ t => R t

/-- The state after a computation. -/
def stateAfter (x : EStateM ε σ α) (s : σ) : σ :=
  match x s with
  | .ok _ t => t
  | .error _ t => t

namespace Ensures

variable {P P' : σ → Prop} {Q Q' : α → σ → Prop} {R : σ → Prop} {x : EStateM ε σ α}

theorem consequence (h : Ensures P x Q R) (hpre : ∀ s, P' s → P s)
    (hpost : ∀ a s, Q a s → Q' a s) : Ensures P' x Q' R := by
  intro s hs
  have hx := h s (hpre s hs)
  cases hrun : x s with
  | ok a t =>
      rw [hrun] at hx
      exact hpost a t hx
  | error e t =>
      rw [hrun] at hx
      exact hx

protected theorem pure {a : α} (h : ∀ s, P s → Q a s) : Ensures P (pure a : EStateM ε σ α) Q R := h

theorem raise {e : ε} (h : ∀ s, P s → R s) : Ensures P (throw e : EStateM ε σ α) Q R := h

protected theorem modify {f : σ → σ} {Q : PUnit → σ → Prop} (h : ∀ s, P s → Q ⟨⟩ (f s)) :
    Ensures P (modify f : EStateM ε σ PUnit) Q R := h

protected theorem modifyGet {f : σ → α × σ} (h : ∀ s, P s → Q (f s).1 (f s).2) :
    Ensures P (modifyGet f : EStateM ε σ α) Q R := h

protected theorem bind {f : α → EStateM ε σ β} {Q' : β → σ → Prop} (hx : Ensures P x Q R)
    (hf : ∀ a, Ensures (Q a) (f a) Q' R) : Ensures P (x >>= f) Q' R := by
  intro s hs
  have h := hx s hs
  change match EStateM.bind x f s with
    | .ok b t => Q' b t
    | .error _ t => R t
  rw [EStateM.bind]
  cases hrun : x s with
  | ok a t =>
      rw [hrun] at h
      exact hf a t h
  | error e t =>
      rw [hrun] at h
      exact h

/-- What is done with the state is done for every state. -/
theorem get_bind {f : σ → EStateM ε σ β} {Q' : β → σ → Prop}
    (h : ∀ s, P s → Ensures (fun t => t = s) (f s) Q' R) : Ensures P (get >>= f) Q' R :=
  fun s hs => h s hs s rfl

protected theorem ite {c : Prop} [Decidable c] {y : EStateM ε σ α} (hx : c → Ensures P x Q R)
    (hy : ¬ c → Ensures P y Q R) : Ensures P (if c then x else y) Q R := by
  split
  · rename_i hc
    exact hx hc
  · rename_i hc
    exact hy hc

/-- A loop keeps what each of its steps keeps. -/
protected theorem forM {f : β → EStateM ε σ PUnit} {l : List β}
    (h : ∀ b ∈ l, Ensures P (f b) (fun _ => P) R) : Ensures P (l.forM f) (fun _ => P) R := by
  induction l with
  | nil => exact Ensures.pure fun _ hs => hs
  | cons b l ih =>
      have hcons : (b :: l).forM f = (f b >>= fun _ => l.forM f) := rfl
      rw [hcons]
      exact (h b List.mem_cons_self).bind fun _ => ih fun b' hb' => h b' (List.mem_cons_of_mem _ hb')

/-- What holds after, whether the computation raised or not. -/
theorem after (h : Ensures P x (fun _ => R) R) {s : σ} (hs : P s) : R (stateAfter x s) := by
  have hx := h s hs
  rw [stateAfter]
  cases hrun : x s with
  | ok a t =>
      rw [hrun] at hx
      exact hx
  | error e t =>
      rw [hrun] at hx
      exact hx

end Ensures
