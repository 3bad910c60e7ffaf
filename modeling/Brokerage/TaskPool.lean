/-
**Tasks that share a state, and the invariants of their interleavings.**

A service answers each request with a task of its own.  The tasks share a state, run one at a time
from one waiting point to the next, and die together when the process restarts, which keeps only
the part of the shared state that is stored outside of it.  `TaskSystem` has the three ways in
which such a service moves, and `TaskSystem.step` puts them together: a label says which task runs
and what it is resumed with, so that the runs of `Transition.exec` are all the interleavings.

An invariant of a pool of tasks is made of three parts: one about the shared state, one about each
task and the shared state, and one about each pair of tasks.  Preserving it comes down to what the
moving task does to the others.  Nothing in this module refers to a particular service.

Main definitions:

* `TaskPool`, `TaskSystem` — a shared state with its tasks, and how they move;
* `TaskSystem.step` — the transition function of the pool;
* `TaskLabel.resumptions` — how often a task is resumed in a run;
* `TaskPool.Inv` — an invariant in three parts;
* `TaskSystem.Keeps` — each kind of step, under a condition on the steps, keeps the three parts.

Main results:

* `TaskSystem.step_inv`, `TaskSystem.exec_inv` — then every step and every run that meets the condition
  keeps the invariant.
-/

import Brokerage.Transition
import Mathlib.Data.List.Basic

set_option relaxedAutoImplicit false
set_option autoImplicit false

/-- A shared state and the tasks that work on it, in the order in which they were started. -/
structure TaskPool (ω τ : Type*) where
  shared : ω
  tasks : List τ
  deriving DecidableEq

/-- How the tasks of a service move. -/
structure TaskSystem (ω τ ρ α κ : Type*) where
  /-- A request starts a task. -/
  enter : ω → ρ → Option (ω × τ)
  /-- A waiting task goes on with an answer. -/
  resume : ω → τ → α → Option (ω × τ)
  /-- The process restarts: all tasks are lost. -/
  restart : ω → κ → Option ω

/-- A move of a pool of tasks. -/
inductive TaskLabel (ρ α κ : Type*)
  | enter (request : ρ)
  | resume (i : ℕ) (answer : α)
  | restart (cause : κ)
  deriving DecidableEq

namespace TaskLabel

variable {ρ α κ : Type*}

/-- How often a task is resumed among some moves. -/
def resumptions (i : ℕ) : List (TaskLabel ρ α κ) → ℕ
  | [] => 0
  | .resume j _ :: ls => (if j = i then 1 else 0) + resumptions i ls
  | _ :: ls => resumptions i ls

theorem resumptions_append (i : ℕ) (ls ms : List (TaskLabel ρ α κ)) :
    resumptions i (ls ++ ms) = resumptions i ls + resumptions i ms := by
  induction ls with
  | nil => exact (Nat.zero_add _).symm
  | cons l ls ih =>
      cases l with
      | resume j a => rw [List.cons_append, resumptions, resumptions, ih, Nat.add_assoc]
      | enter request => exact ih
      | restart cause => exact ih

theorem resumptions_self (i : ℕ) (a : α) :
    resumptions i [(.resume i a : TaskLabel ρ α κ)] = 1 := by
  rw [resumptions, if_pos rfl, resumptions]

theorem resumptions_other {i j : ℕ} (h : j ≠ i) (a : α) :
    resumptions i [(.resume j a : TaskLabel ρ α κ)] = 0 := by
  rw [resumptions, if_neg h, resumptions]

end TaskLabel

namespace TaskPool

variable {ω τ : Type*}

/-- An invariant in three parts: of the shared state, of each task, and of each pair of tasks. -/
structure Inv (G : ω → Prop) (T : ω → τ → Prop) (R : τ → τ → Prop) (p : TaskPool ω τ) : Prop where
  shared : G p.shared
  task : ∀ (i : ℕ) (t : τ), p.tasks[i]? = some t → T p.shared t
  pair : ∀ (i j : ℕ) (t u : τ), i ≠ j → p.tasks[i]? = some t → p.tasks[j]? = some u → R t u

variable {G : ω → Prop} {T : ω → τ → Prop} {R : τ → τ → Prop} {p : TaskPool ω τ}

theorem Inv.mem (h : p.Inv G T R) {t : τ} (ht : t ∈ p.tasks) : T p.shared t := by
  obtain ⟨i, hi⟩ := List.mem_iff_getElem?.1 ht
  exact h.task i t hi

/-- If no two tasks have a property together, at most one has it. -/
theorem Inv.countP_le_one (h : p.Inv G T R) {q : τ → Bool}
    (hq : ∀ t u, R t u → ¬ (q t = true ∧ q u = true)) : p.tasks.countP q ≤ 1 := by
  have key : ∀ l : List τ, (∀ (i j : ℕ) (t u : τ), i ≠ j → l[i]? = some t → l[j]? = some u → R t u) →
      l.countP q ≤ 1 := by
    intro l
    induction l with
    | nil => intro _; simp
    | cons a l ih =>
        intro hpair
        by_cases ha : q a = true
        · have hzero : l.countP q = 0 := by
            rw [List.countP_eq_zero]
            intro b hb hqb
            obtain ⟨j, hj⟩ := List.mem_iff_getElem?.1 hb
            exact hq a b (hpair 0 (j + 1) a b (by omega) (by simp) (by simpa using hj)) ⟨ha, hqb⟩
          simp [ha, hzero]
        · rw [List.countP_cons_of_neg ha]
          refine ih fun i j t u hij hi hj => ?_
          exact hpair (i + 1) (j + 1) t u (by omega) (by simpa using hi) (by simpa using hj)
  exact key p.tasks h.pair

/-- A pool without tasks satisfies the invariant as soon as its shared state does. -/
theorem inv_of_nil {w : ω} (h : G w) : (TaskPool.mk w []).Inv G T R where
  shared := h
  task := by intro i t ht; simp at ht
  pair := by intro i j t u _ ht; simp at ht

end TaskPool

namespace TaskSystem

variable {ω τ ρ α κ : Type*} (S : TaskSystem ω τ ρ α κ)

/-- One move of a pool. -/
def step (p : TaskPool ω τ) : TaskLabel ρ α κ → Option (TaskPool ω τ)
  | .enter r =>
      match S.enter p.shared r with
      | none => none
      | some (w, t) => some ⟨w, p.tasks ++ [t]⟩
  | .resume i a =>
      match p.tasks[i]? with
      | none => none
      | some t =>
          match S.resume p.shared t a with
          | none => none
          | some (w, t') => some ⟨w, p.tasks.set i t'⟩
  | .restart k =>
      match S.restart p.shared k with
      | none => none
      | some w => some ⟨w, []⟩

variable {S}

theorem step_enter {p q : TaskPool ω τ} {r : ρ} :
    S.step p (.enter r) = some q ↔
      ∃ w t, S.enter p.shared r = some (w, t) ∧ q = ⟨w, p.tasks ++ [t]⟩ := by
  cases h : S.enter p.shared r with
  | none => simp [step, h]
  | some wt =>
      obtain ⟨w, t⟩ := wt
      simp [step, h, eq_comm]

theorem step_resume {p q : TaskPool ω τ} {i : ℕ} {a : α} :
    S.step p (.resume i a) = some q ↔
      ∃ t w t', p.tasks[i]? = some t ∧ S.resume p.shared t a = some (w, t') ∧
        q = ⟨w, p.tasks.set i t'⟩ := by
  cases ht : p.tasks[i]? with
  | none => simp [step, ht]
  | some t =>
      cases hr : S.resume p.shared t a with
      | none => simp [step, ht, hr]
      | some wt =>
          obtain ⟨w, t'⟩ := wt
          simp [step, ht, hr, eq_comm]

theorem step_restart {p q : TaskPool ω τ} {k : κ} :
    S.step p (.restart k) = some q ↔ ∃ w, S.restart p.shared k = some w ∧ q = ⟨w, []⟩ := by
  cases h : S.restart p.shared k with
  | none => simp [step, h]
  | some w => simp [step, h, eq_comm]

variable {G : ω → Prop} {T : ω → τ → Prop} {R : τ → τ → Prop}

/-- Starting a task keeps the invariant if the new task satisfies it beside all others. -/
theorem inv_enter {p : TaskPool ω τ} (hsymm : ∀ t u, R t u → R u t) (hp : p.Inv G T R) {w : ω}
    {t : τ} (hG : G w) (hT : T w t) (hothers : ∀ u ∈ p.tasks, T w u ∧ R t u) :
    (TaskPool.mk w (p.tasks ++ [t])).Inv G T R where
  shared := hG
  task := by
    intro i u hu
    rcases List.mem_append.1 (List.mem_iff_getElem?.2 ⟨i, hu⟩) with hold | hnew
    · exact (hothers u hold).1
    · rwa [List.mem_singleton.1 hnew]
  pair := by
    intro i j u v hij hu hv
    -- an index below the old length reads an old task, and only the last one reads the new task
    have hread : ∀ (k : ℕ) (x : τ), (p.tasks ++ [t])[k]? = some x →
        p.tasks[k]? = some x ∨ k = p.tasks.length ∧ x = t := by
      intro k x hx
      rcases Nat.lt_or_ge k p.tasks.length with hlt | hge
      · exact Or.inl (by rwa [List.getElem?_append_left hlt] at hx)
      · right
        rw [List.getElem?_append_right hge, List.getElem?_singleton] at hx
        split at hx
        · exact ⟨by omega, (Option.some.inj hx).symm⟩
        · cases hx
    rcases hread i u hu with hi | ⟨rfl, rfl⟩ <;> rcases hread j v hv with hj | ⟨rfl, rfl⟩
    · exact hp.pair i j u v hij hi hj
    · exact hsymm _ _ (hothers u (List.mem_iff_getElem?.2 ⟨i, hi⟩)).2
    · exact (hothers v (List.mem_iff_getElem?.2 ⟨j, hj⟩)).2
    · exact absurd rfl hij

/-- A step of a task keeps the invariant if the task keeps its part and leaves the others theirs. -/
theorem inv_resume {p : TaskPool ω τ} (hsymm : ∀ t u, R t u → R u t) (hp : p.Inv G T R) {i : ℕ}
    {w : ω} {t' : τ} (hG : G w) (hT : T w t')
    (hothers : ∀ (j : ℕ) (u : τ), j ≠ i → p.tasks[j]? = some u → T w u ∧ R t' u) :
    (TaskPool.mk w (p.tasks.set i t')).Inv G T R where
  shared := hG
  task := by
    intro j u hu
    rw [List.getElem?_set] at hu
    split at hu
    · split at hu
      · cases hu
        exact hT
      · cases hu
    · exact (hothers j u (Ne.symm ‹_›) hu).1
  pair := by
    intro j k u v hjk hu hv
    rw [List.getElem?_set] at hu hv
    by_cases hj : i = j
    · subst hj
      rw [if_neg hjk] at hv
      simp only [if_true] at hu
      split at hu
      · cases hu
        exact (hothers k v (Ne.symm hjk) hv).2
      · cases hu
    · rw [if_neg hj] at hu
      by_cases hk : i = k
      · subst hk
        simp only [if_true] at hv
        split at hv
        · cases hv
          exact hsymm _ _ (hothers j u (Ne.symm hj) hu).2
        · cases hv
      · rw [if_neg hk] at hv
        exact hp.pair j k u v hjk hu hv

variable (S G T R) in
/-- Each kind of step that meets a condition keeps the three parts of an invariant. -/
structure Keeps (P : TaskPool ω τ → TaskLabel ρ α κ → Prop) : Prop where
  symm : ∀ t u, R t u → R u t
  enter : ∀ p r w t, p.Inv G T R → P p (.enter r) → S.enter p.shared r = some (w, t) →
    G w ∧ T w t ∧ ∀ u ∈ p.tasks, T w u ∧ R t u
  resume : ∀ p i a t w t', p.Inv G T R → P p (.resume i a) → p.tasks[i]? = some t →
    S.resume p.shared t a = some (w, t') →
    G w ∧ T w t' ∧ ∀ (j : ℕ) (u : τ), j ≠ i → p.tasks[j]? = some u → T w u ∧ R t' u
  restart : ∀ p k w, p.Inv G T R → P p (.restart k) → S.restart p.shared k = some w → G w

/-- The invariant of a pool is kept by a step that meets the condition. -/
theorem step_inv {P : TaskPool ω τ → TaskLabel ρ α κ → Prop} (hS : S.Keeps G T R P)
    {p q : TaskPool ω τ} {l : TaskLabel ρ α κ} (hp : p.Inv G T R) (hl : P p l)
    (h : S.step p l = some q) : q.Inv G T R := by
  cases l with
  | enter r =>
      obtain ⟨w, u, hr, rfl⟩ := step_enter.1 h
      obtain ⟨hG, hT, hothers⟩ := hS.enter p r w u hp hl hr
      exact inv_enter hS.symm hp hG hT hothers
  | resume i a =>
      obtain ⟨u, w, u', hu, hr, rfl⟩ := step_resume.1 h
      obtain ⟨hG, hT, hothers⟩ := hS.resume p i a u w u' hp hl hu hr
      exact inv_resume hS.symm hp hG hT hothers
  | restart k =>
      obtain ⟨w, hr, rfl⟩ := step_restart.1 h
      exact TaskPool.inv_of_nil (hS.restart p k w hp hl hr)

/-- The same for every run whose steps meet the condition. -/
theorem exec_inv {P : TaskPool ω τ → TaskLabel ρ α κ → Prop} (hS : S.Keeps G T R P)
    {p q : TaskPool ω τ} {ls : List (TaskLabel ρ α κ)} (hp : p.Inv G T R)
    (hP : Transition.Meets S.step P p ls) (h : Transition.exec S.step p ls = some q) :
    q.Inv G T R :=
  Transition.exec_invariant_of_meets (fun _ _ _ hs hl hstep => step_inv hS hs hl hstep) hp hP h

end TaskSystem
