/-
**Counts over whole periods.**

Of the numbers that come one after another, those are counted whose rest by the length of a period is
in its first part.  Whatever number the counting begins at, each whole period adds the length of that
part.  Nothing in this module refers to a particular period.

Main definitions:

* `PeriodicCounts.InPart` — the numbers whose rest is in the first part of a period.

Main results:

* `PeriodicCounts.count_mul_period` — a property with a period, over many periods;
* `PeriodicCounts.count_inPart` — the numbers in the first parts of periods.
-/

import Mathlib.Data.Nat.Periodic
import Mathlib.Tactic.Ring

set_option relaxedAutoImplicit false
set_option autoImplicit false

namespace PeriodicCounts

variable {p : ℕ → Prop} [DecidablePred p] {n a : ℕ}

/-- A property with a period is counted once for each period. -/
theorem count_mul_period (hp : Function.Periodic p n) (w : ℕ) :
    Nat.count p (n * w) = Nat.count p n * w := by
  induction w with
  | zero => simp
  | succ w ih =>
      have hshift : (fun k => p (n * w + k)) = p := by
        funext k
        rw [add_comm, mul_comm]
        exact hp.nat_mul w k
      have hlast : Nat.count (fun k => p (n * w + k)) n = Nat.count p n := by
        simp only [hshift]
      rw [mul_add, mul_one, Nat.count_add, ih, hlast]
      ring

/-- It does not matter at which number a period begins. -/
theorem count_shift (hp : Function.Periodic p n) (m : ℕ) :
    Nat.count (fun k => p (m + k)) n = Nat.count p n := by
  have hsum : Nat.count p m + Nat.count (fun k => p (m + k)) n = Nat.count p n + Nat.count p m := by
    have hperiod : (fun k => p (n + k)) = p := by
      funext k
      rw [add_comm, hp k]
    have hrest : Nat.count (fun k => p (n + k)) m = Nat.count p m := by
      simp only [hperiod]
    rw [← Nat.count_add, add_comm m n, Nat.count_add, hrest]
  omega

/-- The numbers whose rest is in the first part of a period. -/
def InPart (n a : ℕ) (x : ℤ) : Prop := x % n < a

instance : DecidablePred (InPart n a) := fun x => inferInstanceAs (Decidable (x % n < a))

/-- The first part of a period has its length. -/
theorem count_lt_part (ha : a ≤ n) : Nat.count (fun k : ℕ => InPart n a k) n = a := by
  have hlow : ∀ k < a, InPart n a k := by
    intro k hk
    rw [InPart, Int.emod_eq_of_lt] <;> omega
  have hhigh : ∀ k < n - a, ¬ InPart n a (a + k : ℕ) := by
    intro k hk
    rw [InPart, Int.emod_eq_of_lt] <;> omega
  calc Nat.count (fun k : ℕ => InPart n a k) n
      = Nat.count (fun k : ℕ => InPart n a k) (a + (n - a)) := by rw [Nat.add_sub_cancel' ha]
    _ = a + 0 := by
        rw [Nat.count_add, Nat.count_iff_forall.2 hlow, Nat.count_iff_forall_not.2 hhigh]
    _ = a := rfl

/-- From any number on, each period adds the length of its first part. -/
theorem count_inPart (ha : a ≤ n) (c : ℤ) (w : ℕ) :
    Nat.count (fun k : ℕ => InPart n a (c + k)) (n * w) = a * w := by
  rcases Nat.eq_zero_or_pos n with rfl | hn
  · obtain rfl : a = 0 := by omega
    simp
  obtain ⟨m, hm⟩ : ∃ m : ℕ, (m : ℤ) = c % n :=
    ⟨(c % n).toNat, Int.toNat_of_nonneg (Int.emod_nonneg c (by omega))⟩
  have hrest : (fun k : ℕ => InPart n a (c + k)) = fun k : ℕ => InPart n a (m + k : ℕ) := by
    funext k
    rw [InPart, InPart, Nat.cast_add, hm, Int.emod_add_emod]
  have hp : Function.Periodic (fun k : ℕ => InPart n a k) n := by
    intro k
    simp [InPart]
  have hp' : Function.Periodic (fun k : ℕ => InPart n a (m + k : ℕ)) n := by
    intro k
    simp [InPart, ← add_assoc]
  have hone : Nat.count (fun k : ℕ => InPart n a (m + k : ℕ)) n = a :=
    (count_shift hp m).trans (count_lt_part ha)
  simp only [hrest]
  rw [count_mul_period hp', hone]

end PeriodicCounts
