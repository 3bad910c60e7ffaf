/-
**Smoothed lists.**

A list is smoothed by a recurrence: a first part of it gives a seed, and each further element moves the
value.  The values that are defined begin at the end of the first part, and each of them depends only on
the elements up to its own.  A mean lies in the range of its elements, and a value that moves by a share
towards each new element stays in the range of those so far.  Nothing in this module refers to a
particular list.

Main definitions:

* `Smoothing.run`, `Smoothing.value` — the values of a recurrence;
* `Smoothing.withPrevious` — a list made of each element and the one before;
* `Smoothing.Tracks` — lists of values that follow the elements;
* `Smoothing.InRange`, `Smoothing.mean` — values between elements of a list.

Main results:

* `Smoothing.getElem?_run` — each value is that of the elements up to its own;
* `Smoothing.isSome_run_iff`, `Smoothing.run_take` — where values begin, and that they do not depend on
  what comes after;
* `Smoothing.run_invariant` — what the seed has and each step keeps;
* `Smoothing.tracks_run` — the values of a recurrence follow the elements;
* `Smoothing.inRange_mean`, `Smoothing.InRange.move` — the two ways to stay in range.
-/

import Mathlib.Algebra.Order.BigOperators.Group.List
import Mathlib.Algebra.Order.Field.Basic
import Mathlib.Tactic.Linarith
import Mathlib.Tactic.Ring

set_option relaxedAutoImplicit false
set_option autoImplicit false

namespace Smoothing

/-! ### Recurrences -/

section Recurrences

variable {α β σ : Type*}

/-- The values of a recurrence, from the last element of the first part on. -/
def run (step : σ → α → σ) (seed : List α → σ) (k : ℕ) (xs : List α) : List (Option σ) :=
  if xs.length < k then
    List.replicate xs.length none
  else
    List.replicate (k - 1) none ++ ((xs.drop k).scanl step (seed (xs.take k))).map some

/-- The value after a list that is not shorter than the first part. -/
def value (step : σ → α → σ) (seed : List α → σ) (k : ℕ) (xs : List α) : σ :=
  (xs.drop k).foldl step (seed (xs.take k))

variable {step : σ → α → σ} {seed : List α → σ} {k : ℕ}

/-- Each value is that of the elements up to its own. -/
theorem getElem?_run (hk : 1 ≤ k) (xs : List α) (i : ℕ) :
    (run step seed k xs)[i]? =
      if i < xs.length then
        some (if k ≤ i + 1 then some (value step seed k (xs.take (i + 1))) else none)
      else
        none := by
  rw [run]
  by_cases hshort : xs.length < k
  · rw [if_pos hshort, List.getElem?_replicate]
    split_ifs <;> first | rfl | omega
  · rw [if_neg hshort]
    by_cases hi : i < k - 1
    · rw [List.getElem?_append_left (by simpa using hi), List.getElem?_replicate, if_pos hi,
        if_pos (by omega), if_neg (by omega)]
    · obtain ⟨j, rfl⟩ : ∃ j, i = k - 1 + j := ⟨i - (k - 1), by omega⟩
      have hplace : k - 1 + j + 1 = k + j := by omega
      rw [List.getElem?_append_right (by simp), List.length_replicate, Nat.add_sub_cancel_left,
        List.getElem?_map, List.getElem?_scanl, hplace, value, List.take_take,
        Nat.min_eq_left (Nat.le_add_right k j), List.drop_take, Nat.add_sub_cancel_left,
        List.length_drop]
      by_cases hlast : j ≤ xs.length - k
      · rw [if_pos hlast, if_pos (by omega), if_pos (by omega)]
        rfl
      · rw [if_neg hlast, if_neg (by omega)]
        rfl

/-- The values begin at the last element of the first part. -/
theorem isSome_run_iff (hk : 1 ≤ k) {xs : List α} {i : ℕ} {r : Option σ}
    (h : (run step seed k xs)[i]? = some r) : r.isSome ↔ k ≤ i + 1 := by
  rw [getElem?_run hk] at h
  split_ifs at h with hi hle
  · obtain rfl := Option.some.inj h
    simp [hle]
  · obtain rfl := Option.some.inj h
    simp [hle]

theorem length_run (hk : 1 ≤ k) (xs : List α) : (run step seed k xs).length = xs.length := by
  rw [run]
  split_ifs with hshort
  · exact List.length_replicate
  · simp
    omega

/-- The values of a first part are the first ones of all. -/
theorem run_take (hk : 1 ≤ k) (xs : List α) (m : ℕ) :
    run step seed k (xs.take m) = (run step seed k xs).take m := by
  refine List.ext_getElem? fun i => ?_
  rw [getElem?_run hk, List.getElem?_take, getElem?_run hk, List.length_take]
  by_cases him : i < m
  · have hmin : min (i + 1) m = i + 1 := Nat.min_eq_left him
    rw [if_pos him, List.take_take, hmin]
    simp [him]
  · simp [him]

/-- What a seed has and a step keeps holds of every value, for the elements up to its own. -/
theorem run_invariant {P : List α → σ → Prop} (hk : 1 ≤ k)
    (hseed : ∀ l : List α, l.length = k → P l (seed l))
    (hstep : ∀ (l : List α) (s : σ) (x : α), P l s → P (l ++ [x]) (step s x))
    {xs : List α} {i : ℕ} {v : σ} (h : (run step seed k xs)[i]? = some (some v)) :
    P (xs.take (i + 1)) v := by
  have hfold : ∀ (l pre : List α) (s : σ), P pre s → P (pre ++ l) (l.foldl step s) := by
    intro l
    induction l with
    | nil =>
        intro pre s hs
        simpa using hs
    | cons x l ih =>
        intro pre s hs
        simpa using ih (pre ++ [x]) (step s x) (hstep pre s x hs)
  obtain ⟨hi, hle⟩ : i < xs.length ∧ k ≤ i + 1 :=
    ⟨by simpa [length_run hk] using (List.getElem?_eq_some_iff.1 h).1, (isSome_run_iff hk h).1 rfl⟩
  rw [getElem?_run hk, if_pos hi, if_pos hle] at h
  obtain rfl := Option.some.inj (Option.some.inj h)
  have hlength : ((xs.take (i + 1)).take k).length = k := by
    rw [List.take_take, List.length_take]
    omega
  have hvalue := hfold ((xs.take (i + 1)).drop k) _ _ (hseed _ hlength)
  rwa [List.take_append_drop] at hvalue

/-- What is made of each element and the one before it. -/
def withPrevious (first : α → β) (f : α → α → β) : List α → List β
  | [] => []
  | x :: xs => first x :: List.zipWith f (x :: xs) xs

@[simp] theorem length_withPrevious (first : α → β) (f : α → α → β) (xs : List α) :
    (withPrevious first f xs).length = xs.length := by
  cases xs <;> simp [withPrevious]

/-- It does not depend on what comes after. -/
theorem withPrevious_take (first : α → β) (f : α → α → β) (xs : List α) (m : ℕ) :
    withPrevious first f (xs.take m) = (withPrevious first f xs).take m := by
  cases xs with
  | nil => simp [withPrevious]
  | cons x xs =>
      cases m with
      | zero => rfl
      | succ m =>
          rw [withPrevious, List.take_succ_cons, List.take_succ_cons, withPrevious]
          congr 1
          refine List.ext_getElem? fun i => ?_
          rw [List.getElem?_take, List.getElem?_zipWith, List.getElem?_zipWith, List.getElem?_take,
            ← List.take_succ_cons, List.getElem?_take]
          by_cases him : i < m
          · simp [him, Nat.lt_succ_of_lt him]
          · simp [him]

/-- Values that follow the elements of a list: there is one for each element from a place on, it depends
on nothing after that element, and it has a property together with the elements up to it. -/
structure Tracks (f : List α → List (Option β)) (start : ℕ) (P : List α → β → Prop) : Prop where
  length : ∀ xs, (f xs).length = xs.length
  defined : ∀ xs i r, (f xs)[i]? = some r → (r.isSome ↔ start ≤ i)
  causal : ∀ xs ys i, xs.take (i + 1) = ys.take (i + 1) → (f xs)[i]? = (f ys)[i]?
  holds : ∀ xs i v, (f xs)[i]? = some (some v) → P (xs.take (i + 1)) v

/-- The values of a recurrence follow the elements. -/
theorem tracks_run {γ : Type*} {f : List γ → List (Option β)} {g : List γ → List α} {out : σ → β}
    {P : List γ → β → Prop} (hk : 1 ≤ k)
    (hf : ∀ xs, f xs = (run step seed k (g xs)).map (Option.map out))
    (hlength : ∀ xs, (g xs).length = xs.length) (htake : ∀ xs m, g (xs.take m) = (g xs).take m)
    (hP : ∀ xs i s, (run step seed k (g xs))[i]? = some (some s) → P (xs.take (i + 1)) (out s)) :
    Tracks f (k - 1) P where
  length := by
    intro xs
    rw [hf, List.length_map, length_run hk, hlength]
  defined := by
    intro xs i r hr
    rw [hf, List.getElem?_map] at hr
    obtain ⟨s, hs, rfl⟩ := Option.map_eq_some_iff.1 hr
    rw [Option.isSome_map, isSome_run_iff hk hs]
    omega
  causal := by
    have hupTo : ∀ xs i, (f xs)[i]? = (f (xs.take (i + 1)))[i]? := by
      intro xs i
      rw [hf, hf, htake, run_take hk, List.getElem?_map, List.getElem?_map, List.getElem?_take,
        if_pos (Nat.lt_succ_self i)]
    intro xs ys i hsame
    rw [hupTo xs, hupTo ys, hsame]
  holds := by
    intro xs i v hv
    rw [hf, List.getElem?_map] at hv
    obtain ⟨r, hr, hout⟩ := Option.map_eq_some_iff.1 hv
    obtain ⟨s, rfl, rfl⟩ := Option.map_eq_some_iff.1 hout
    exact hP xs i s hr

end Recurrences

/-! ### Ranges -/

section Ranges

variable {K : Type*} [Field K] [LinearOrder K] [IsStrictOrderedRing K] {l : List K} {v w x : K}

/-- A value lies between elements of a list. -/
def InRange (l : List K) (v : K) : Prop := (∃ a ∈ l, a ≤ v) ∧ ∃ b ∈ l, v ≤ b

def mean (l : List K) : K := l.sum / l.length

/-- A mean lies in the range of its elements. -/
theorem inRange_mean (h : l ≠ []) : InRange l (mean l) := by
  have hlength : (l.length : K) ≠ 0 := by
    simpa using h
  have hsum : (l.map fun _ => mean l).sum = (l.map fun a => a).sum := by
    rw [List.map_const', List.sum_replicate, nsmul_eq_mul, mean, mul_div_cancel₀ _ hlength, List.map_id']
  exact ⟨List.exists_le_of_sum_le h _ _ hsum.ge, List.exists_le_of_sum_le h _ _ hsum.le⟩

/-- A mean of elements that are not negative is not. -/
theorem mean_nonneg (h : ∀ a ∈ l, 0 ≤ a) : 0 ≤ mean l :=
  div_nonneg (List.sum_nonneg h) (Nat.cast_nonneg _)

/-- A value that moves by a share towards a new element stays in range. -/
theorem InRange.move (h : InRange l v) {a : K} (h0 : 0 ≤ a) (h1 : a ≤ 1) (x : K) :
    InRange (l ++ [x]) (x * a + v * (1 - a)) := by
  obtain ⟨⟨b, hb, hbv⟩, c, hc, hvc⟩ := h
  have hback : 0 ≤ 1 - a := by linarith
  have hx : x ∈ l ++ [x] := by simp
  have hold : ∀ {d : K}, d ∈ l → d ∈ l ++ [x] := fun hd => List.mem_append_left _ hd
  rcases le_total x v with hxv | hvx
  · have hlow : 0 ≤ (v - x) * (1 - a) := mul_nonneg (by linarith) hback
    have hhigh : 0 ≤ (v - x) * a := mul_nonneg (by linarith) h0
    exact ⟨⟨x, hx, by linarith⟩, c, hold hc, by linarith⟩
  · have hlow : 0 ≤ (x - v) * a := mul_nonneg (by linarith) h0
    have hhigh : 0 ≤ (x - v) * (1 - a) := mul_nonneg (by linarith) hback
    exact ⟨⟨b, hold hb, by linarith⟩, x, hx, by linarith⟩

end Ranges

end Smoothing
