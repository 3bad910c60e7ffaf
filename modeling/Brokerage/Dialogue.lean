/-
**Clients that ask and are answered.**

A client asks one thing after another, each depending on the answers so far, until it is done.
Nothing is known of the answers: what is shown of a dialogue holds whoever the client talks to.
What holds of the exchanges and the state at first, and is kept by every exchange, holds at the end;
and a client that comes nearer to its end with every answer is done after enough of them.  Nothing
in this module refers to a particular client.

Main definitions:

* `Client` — what is asked in a state, and the state after an answer;
* `Client.dialogue` — the exchanges of some answers, and the state after them;
* `Client.Fair` — every answer of a dialogue is one that may be expected.

Main results:

* `Client.dialogue_induction` — what every exchange keeps holds at the end;
* `Client.Fair.done` — a client that comes nearer to its end is done after enough answers.
-/

import Mathlib

set_option relaxedAutoImplicit false
set_option autoImplicit false

/-- What is asked in a state, unless the client is done, and the state after an answer. -/
structure Client (σ Q A : Type*) where
  ask : σ → Option Q
  answer : σ → A → σ

namespace Client

variable {σ Q A : Type*} (c : Client σ Q A)

/-- The exchanges of some answers, and the state after them; what comes when the client is done is
not looked at. -/
def dialogue : σ → List A → List (Q × A) × σ
  | s, [] => ([], s)
  | s, a :: as =>
      match c.ask s with
      | none => ([], s)
      | some q => ((q, a) :: (dialogue (c.answer s a) as).1, (dialogue (c.answer s a) as).2)

/-- Every answer that is looked at may be expected in its state. -/
def Fair (expected : σ → A → Prop) : σ → List A → Prop
  | _, [] => True
  | s, a :: as =>
      match c.ask s with
      | none => True
      | some _ => expected s a ∧ Fair expected (c.answer s a) as

instance decidableFair (expected : σ → A → Prop) [∀ s a, Decidable (expected s a)] :
    ∀ (s : σ) (as : List A), Decidable (c.Fair expected s as)
  | _, [] => inferInstanceAs (Decidable True)
  | s, a :: as =>
      have := decidableFair expected (c.answer s a) as
      match h : c.ask s with
      | none => isTrue (by rw [Fair, h]; trivial)
      | some _ =>
          decidable_of_iff (expected s a ∧ c.Fair expected (c.answer s a) as) (by rw [Fair, h])

variable {c} {s : σ} {as : List A}

theorem dialogue_of_done (h : c.ask s = none) (as : List A) : c.dialogue s as = ([], s) := by
  cases as with
  | nil => rfl
  | cons a as => rw [dialogue, h]

theorem dialogue_cons {q : Q} (h : c.ask s = some q) (a : A) (as : List A) :
    c.dialogue s (a :: as) =
      ((q, a) :: (c.dialogue (c.answer s a) as).1, (c.dialogue (c.answer s a) as).2) := by
  rw [dialogue, h]

/-- What holds at first, and is kept by every exchange, holds at the end. -/
theorem dialogue_induction {P : List (Q × A) → σ → Prop}
    (hstep : ∀ log s q a, P log s → c.ask s = some q → P (log ++ [(q, a)]) (c.answer s a))
    (hnil : P [] s) (as : List A) : P (c.dialogue s as).1 (c.dialogue s as).2 := by
  have hany : ∀ (as : List A) (log : List (Q × A)) (s : σ), P log s →
      P (log ++ (c.dialogue s as).1) (c.dialogue s as).2 := by
    intro as
    induction as with
    | nil =>
        intro log s h
        rw [dialogue, List.append_nil]
        exact h
    | cons a as ih =>
        intro log s h
        cases hask : c.ask s with
        | none =>
            rw [dialogue_of_done hask, List.append_nil]
            exact h
        | some q =>
            have hrest := ih _ _ (hstep log s q a h hask)
            rw [List.append_assoc] at hrest
            rw [dialogue_cons hask]
            exact hrest
  exact hany as [] s hnil

/-- A client that comes nearer to its end with every answer that may be expected is done after
enough of them. -/
theorem Fair.done {expected : σ → A → Prop} {I : σ → Prop} {left : σ → ℕ}
    (hleftPos : ∀ s q, I s → c.ask s = some q → 0 < left s)
    (hstep : ∀ s q a, I s → c.ask s = some q → expected s a →
      I (c.answer s a) ∧ left (c.answer s a) < left s)
    (h : c.Fair expected s as) (hI : I s) (hleft : left s ≤ as.length) :
    c.ask (c.dialogue s as).2 = none := by
  induction as generalizing s with
  | nil =>
      cases hask : c.ask s with
      | none => exact hask
      | some q => exact absurd (hleftPos s q hI hask) (not_lt.2 hleft)
  | cons a as ih =>
      cases hask : c.ask s with
      | none =>
          rw [dialogue_of_done hask]
          exact hask
      | some q =>
          rw [Fair, hask] at h
          obtain ⟨hI', hlt⟩ := hstep s q a hI hask h.1
          rw [dialogue_cons hask]
          exact ih h.2 hI' (by rw [List.length_cons] at hleft; omega)

end Client
