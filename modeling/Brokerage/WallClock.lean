/-
**Clocks that are put forward and back.**

A clock shows a reading at every instant.  It runs evenly but for its changes, at which it is put
forward or back.  A reading that no change passes is shown at one instant only, before which the clock
shows less and after which it shows more; so between two such readings the clock is as good as time.

Main definitions:

* `HoldsUntil` — something holds from an instant until another one, at which something else does;
* `Steady` — no change of a clock passes a reading;
* `ShownOnce` — a reading is shown at one instant only.

Main results:

* `Steady.exists_shownOnce` — a reading that no change passes is shown once;
* `HoldsUntil.of_readings` — what holds of the readings until one of them holds until its instant.
-/

import Mathlib.Data.Int.LeastGreatest

set_option relaxedAutoImplicit false
set_option autoImplicit false

/-! ### Until -/

/-- `p` holds from `t` on until `n`, at which `q` holds. -/
structure HoldsUntil (p q : ℤ → Prop) (t n : ℤ) : Prop where
  lt : t < n
  final : q n
  before : ∀ u, t ≤ u → u < n → p u

/-! ### Readings -/

/-- No change of a clock passes a reading: where the clock does not run evenly, the reading that would
have been next and the one that is shown are both before it, or both after it. -/
def Steady (clock : ℤ → ℤ) (b : ℤ) : Prop :=
  ∀ u, clock u ≠ clock (u - 1) + 1 →
    (clock (u - 1) + 1 < b ∧ clock u < b) ∨ (b < clock (u - 1) + 1 ∧ b < clock u)

/-- A reading is shown at one instant only, with the smaller ones before and the greater ones after. -/
structure ShownOnce (clock : ℤ → ℤ) (b i : ℤ) : Prop where
  before : ∀ u, clock u < b ↔ u < i
  after : ∀ u, b < clock u ↔ i < u

namespace ShownOnce

variable {clock : ℤ → ℤ} {b i : ℤ}

theorem reading (h : ShownOnce clock b i) : clock i = b :=
  le_antisymm (not_lt.1 fun hlt => lt_irrefl i ((h.after i).1 hlt))
    (not_lt.1 fun hlt => lt_irrefl i ((h.before i).1 hlt))

theorem eq_of_reading (h : ShownOnce clock b i) {u : ℤ} (hu : clock u = b) : u = i :=
  le_antisymm (not_lt.1 fun hlt => ((h.after u).2 hlt).ne' hu)
    (not_lt.1 fun hlt => ((h.before u).2 hlt).ne hu)

theorem le_iff (h : ShownOnce clock b i) (u : ℤ) : b ≤ clock u ↔ i ≤ u := by
  rw [← not_lt, h.before u, not_lt]

end ShownOnce

namespace Steady

variable {clock : ℤ → ℤ} {b : ℤ}

/-- Once the clock has reached the reading, it is past it. -/
theorem lt_of_le_pred (h : Steady clock b) {u : ℤ} (hu : b ≤ clock (u - 1)) : b < clock u := by
  by_cases heven : clock u = clock (u - 1) + 1
  · omega
  · rcases h u heven with ⟨hlt, -⟩ | ⟨-, hlt⟩
    · omega
    · exact hlt

theorem lt_of_lt (h : Steady clock b) {u v : ℤ} (hu : b ≤ clock u) (huv : u < v) : b < clock v := by
  induction v, (show u + 1 ≤ v from huv) using Int.leInduction with
  | base =>
      refine h.lt_of_le_pred ?_
      rwa [add_sub_cancel_right]
  | succ v hv ih =>
      refine h.lt_of_le_pred ?_
      rw [add_sub_cancel_right]
      exact (ih hv).le

/-- A clock that is never far off shows such a reading once. -/
theorem exists_shownOnce (h : Steady clock b) {d : ℤ} (hnear : ∀ u, u - d ≤ clock u ∧ clock u ≤ u + d) :
    ∃ i, ShownOnce clock b i := by
  -- the first instant at which the clock has reached the reading
  obtain ⟨i, hi, hleast⟩ : ∃ i, b ≤ clock i ∧ ∀ u, b ≤ clock u → i ≤ u := by
    refine Int.exists_least_of_bdd ⟨b - d, fun u hu => ?_⟩ ⟨b + d, ?_⟩
    · have := (hnear u).2
      omega
    · have := (hnear (b + d)).1
      omega
  have hpred : clock (i - 1) < b := by
    by_contra hle
    have := hleast (i - 1) (not_lt.1 hle)
    omega
  have hreading : clock i = b := by
    by_cases heven : clock i = clock (i - 1) + 1
    · omega
    · rcases h i heven with ⟨-, hlt⟩ | ⟨hlt, -⟩ <;> omega
  refine ⟨i, fun u => ⟨fun hu => ?_, fun hu => ?_⟩, fun u => ⟨fun hu => ?_, fun hu => ?_⟩⟩
  · by_contra hle
    rcases (not_lt.1 hle).lt_or_eq with hlt | rfl
    · exact lt_asymm hu (h.lt_of_lt hi hlt)
    · omega
  · by_contra hle
    have := hleast u (not_lt.1 hle)
    omega
  · rcases (hleast u hu.le).lt_or_eq with hlt | rfl
    · exact hlt
    · omega
  · exact h.lt_of_lt hi hu

end Steady

/-- What holds of the readings from one on until another, both shown once, holds until the instant of
the other. -/
theorem HoldsUntil.of_readings {clock : ℤ → ℤ} {p q : ℤ → Prop} {a b i j t : ℤ}
    (ha : ShownOnce clock a i) (hb : ShownOnce clock b j) (hlow : a ≤ clock t) (hhigh : clock t < b)
    (hfinal : q j) (hp : ∀ u, t ≤ u → a ≤ clock u → clock u < b → p u) : HoldsUntil p q t j where
  lt := (hb.before t).1 hhigh
  final := hfinal
  before u htu huj := by
    have hi : i ≤ u := ((ha.le_iff t).1 hlow).trans htu
    exact hp u htu ((ha.le_iff u).2 hi) ((hb.before u).2 huj)
