/-
**Computations that a crash can cut off.**

A process works on a state that outlives it.  A crash ends the process between two of its writes:
what it had written stays, and the rest of the computation is not done.  Such a computation is
described by a condition before it and two after it, one for when it came to its end and one for
every state in which a crash can leave it.  Nothing in this module refers to a particular state.

Main definitions:

* `Process`, `Durable` — a process at work, and what it computes;
* `Durable.read`, `Durable.write` — the steps of a computation;
* `Durable.left` — the state after a process;
* `Survives` — a condition before, one after, and one for every crash.

Main results:

* `Survives.bind`, `Survives.ite` — how computations are put together;
* `Survives.run` — a process that does not crash comes to its end;
* `Survives.left` — what holds of the state after a process, cut off or not.
-/

import Mathlib.Data.Nat.Notation

set_option relaxedAutoImplicit false
set_option autoImplicit false

variable {σ α β : Type}

/-- A process: the state that outlives it, and the number of writes it still makes before a crash
ends it, if one does. -/
structure Process (σ : Type) where
  disk : σ
  crashIn : Option ℕ

/-- A computation of a process, which raises when the process is cut off. -/
abbrev Durable (σ α : Type) := EStateM Unit (Process σ) α

namespace Durable

/-- The state as it is. -/
def read : Durable σ σ := fun p => .ok p.disk p

/-- One write. -/
def write (f : σ → σ) : Durable σ Unit := fun p =>
  match p.crashIn with
  | none => .ok () ⟨f p.disk, none⟩
  | some 0 => .error () p
  | some (n + 1) => .ok () ⟨f p.disk, some n⟩

/-- The state that a process leaves, with the number of writes before its crash. -/
def left (x : Durable σ α) (crashIn : Option ℕ) (s : σ) : σ :=
  match x ⟨s, crashIn⟩ with
  | .ok _ p => p.disk
  | .error _ p => p.disk

end Durable

/-- From a state with `P` the computation comes to its end with a result and a state with `Q`, or
the process crashes in a state with `C`, which it does only if a crash was to come. -/
def Survives (P : σ → Prop) (x : Durable σ α) (Q : α → σ → Prop) (C : σ → Prop) : Prop :=
  ∀ p : Process σ, P p.disk → match x p with
    | .ok a q => Q a q.disk ∧ (p.crashIn = none → q.crashIn = none)
    | .error _ q => C q.disk ∧ p.crashIn ≠ none

namespace Survives

variable {P P' C C' : σ → Prop} {Q Q' : α → σ → Prop} {x : Durable σ α}

theorem consequence (h : Survives P x Q C) (hpre : ∀ s, P' s → P s)
    (hpost : ∀ a s, Q a s → Q' a s) (hcrash : ∀ s, C s → C' s) : Survives P' x Q' C' := by
  intro p hp
  have hx := h p (hpre _ hp)
  cases hrun : x p with
  | ok a q =>
      rw [hrun] at hx
      exact ⟨hpost a _ hx.1, hx.2⟩
  | error e q =>
      rw [hrun] at hx
      exact ⟨hcrash _ hx.1, hx.2⟩

protected theorem pure {a : α} (h : ∀ s, P s → Q a s) : Survives P (pure a : Durable σ α) Q C :=
  fun p hp => ⟨h p.disk hp, id⟩

/-- A fact that does not depend on the state is a hypothesis. -/
theorem of_and {φ : Prop} (h : φ → Survives P x Q C) : Survives (fun s => P s ∧ φ) x Q C :=
  fun p hp => h hp.2 p hp.1

/-- The state before the computation may be taken as a fixed one. -/
theorem of_forall (h : ∀ s, P s → Survives (fun t => t = s) x Q C) : Survives P x Q C :=
  fun p hp => h p.disk hp p rfl

/-- What is done with the state is done for every state. -/
theorem read_bind {f : σ → Durable σ α} (h : ∀ s, P s → Survives (fun t => t = s) (f s) Q C) :
    Survives P (Durable.read >>= f) Q C :=
  fun p hp => h p.disk hp p rfl

/-- A crash leaves the state before a write or the one after it. -/
protected theorem write {f : σ → σ} {Q : Unit → σ → Prop} (hcrash : ∀ s, P s → C s)
    (h : ∀ s, P s → Q () (f s)) : Survives P (Durable.write f) Q C := by
  rintro ⟨s, crashIn⟩ hp
  cases crashIn with
  | none => exact ⟨h s hp, id⟩
  | some n =>
      cases n with
      | zero => exact ⟨hcrash s hp, nofun⟩
      | succ n => exact ⟨h s hp, nofun⟩

protected theorem bind {f : α → Durable σ β} {Q' : β → σ → Prop} (hx : Survives P x Q C)
    (hf : ∀ a, Survives (Q a) (f a) Q' C) : Survives P (x >>= f) Q' C := by
  intro p hp
  have h := hx p hp
  change match EStateM.bind x f p with
    | .ok b q => Q' b q.disk ∧ (p.crashIn = none → q.crashIn = none)
    | .error _ q => C q.disk ∧ p.crashIn ≠ none
  rw [EStateM.bind]
  cases hrun : x p with
  | error e q =>
      rw [hrun] at h
      exact h
  | ok a q =>
      rw [hrun] at h
      have hnext := hf a q h.1
      change match f a q with
        | .ok b r => Q' b r.disk ∧ (p.crashIn = none → r.crashIn = none)
        | .error _ r => C r.disk ∧ p.crashIn ≠ none
      cases hrest : f a q with
      | ok b r =>
          rw [hrest] at hnext
          exact ⟨hnext.1, fun hnone => hnext.2 (h.2 hnone)⟩
      | error e r =>
          rw [hrest] at hnext
          exact ⟨hnext.1, hnext.2 ∘ h.2⟩

protected theorem ite {c : Prop} [Decidable c] {y : Durable σ α} (hx : c → Survives P x Q C)
    (hy : ¬ c → Survives P y Q C) : Survives P (if c then x else y) Q C := by
  split
  · rename_i hc
    exact hx hc
  · rename_i hc
    exact hy hc

/-- A process that does not crash comes to its end. -/
theorem run (h : Survives P x Q C) {s : σ} (hs : P s) :
    ∃ a t, x ⟨s, none⟩ = .ok a ⟨t, none⟩ ∧ Q a t := by
  have hx := h ⟨s, none⟩ hs
  cases hrun : x ⟨s, none⟩ with
  | error e q =>
      rw [hrun] at hx
      exact absurd rfl hx.2
  | ok a q =>
      rw [hrun] at hx
      obtain ⟨t, crashIn⟩ := q
      obtain rfl : crashIn = none := hx.2 rfl
      exact ⟨a, t, rfl, hx.1⟩

/-- What holds of the state after a process, cut off or not. -/
theorem left (h : Survives P x (fun _ => C) C) {s : σ} (hs : P s) (crashIn : Option ℕ) :
    C (Durable.left x crashIn s) := by
  have hx := h ⟨s, crashIn⟩ hs
  rw [Durable.left]
  cases hrun : x ⟨s, crashIn⟩ with
  | ok a q =>
      rw [hrun] at hx
      exact hx.1
  | error e q =>
      rw [hrun] at hx
      exact hx.1

end Survives
