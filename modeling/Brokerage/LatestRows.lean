/-
**The latest rows of a sequence.**

Of the rows that there are, those of the largest keys are wanted, in ascending order and at most a
given number of them.  A sorted sequence has them at its end.  Nothing in this module refers to a
particular sequence.

Main definitions:

* `LatestRows.Latest` — rows with the largest keys of a set.

Main results:

* `LatestRows.latest_rtake` — the end of a sorted sequence;
* `LatestRows.latest_of_le`, `LatestRows.latest_iff` — a sorted sequence that is not cut;
* `LatestRows.forall_rtake_append` — whether the end of a sequence reaches into its first part.
-/

import Brokerage.CursorPages
import Mathlib.Data.List.DropRight
import Mathlib.Data.Set.Basic

set_option relaxedAutoImplicit false
set_option autoImplicit false

namespace LatestRows

open CursorPages (Sorted)

variable {α κ : Type*} [LinearOrder κ] {key : α → κ}

/-- Sorted rows, at most a given number: a key of the set that they lack comes before all of them,
and then they have the full number. -/
structure Latest (key : α → κ) (limit : ℕ) (keys : Set κ) (l : List α) : Prop where
  sorted : Sorted key l
  length_le : l.length ≤ limit
  mem_keys : ∀ x ∈ l, key x ∈ keys
  latest : ∀ k ∈ keys, k ∈ l.map key ∨ (l.length = limit ∧ ∀ x ∈ l, k < key x)

/-- All rows, if they are not too many. -/
theorem latest_of_le {limit : ℕ} {keys : Set κ} {l : List α} (h : Sorted key l)
    (hkeys : ∀ k, k ∈ keys ↔ k ∈ l.map key) (hle : l.length ≤ limit) :
    Latest key limit keys l where
  sorted := h
  length_le := hle
  mem_keys _ hx := (hkeys _).2 (List.mem_map_of_mem hx)
  latest k hk := Or.inl ((hkeys k).1 hk)

/-- The last rows of a sorted sequence. -/
theorem latest_rtake {limit : ℕ} {keys : Set κ} {l : List α} (h : Sorted key l)
    (hkeys : ∀ k, k ∈ keys ↔ k ∈ l.map key) : Latest key limit keys (l.rtake limit) := by
  rcases Nat.le_total l.length limit with hle | hle
  · rw [List.rtake, Nat.sub_eq_zero_of_le hle, List.drop_zero]
    exact latest_of_le h hkeys hle
  · have hsplit : l.take (l.length - limit) ++ l.rtake limit = l :=
      List.take_append_drop (l.length - limit) l
    have hlength : (l.rtake limit).length = limit := by
      rw [List.rtake, List.length_drop]
      omega
    refine ⟨h.sublist (List.drop_sublist _ _), hlength.le, fun x hx => ?_, fun k hk => ?_⟩
    · exact (hkeys _).2 (List.mem_map_of_mem (List.mem_of_mem_drop hx))
    · obtain ⟨x, hx, rfl⟩ := List.mem_map.1 ((hkeys k).1 hk)
      rw [← hsplit] at hx
      rcases List.mem_append.1 hx with hx | hx
      · rw [← hsplit] at h
        exact Or.inr ⟨hlength, fun y hy => (List.pairwise_append.1 h).2.2 x hx y hy⟩
      · exact Or.inl (List.mem_map_of_mem hx)

/-- Rows that lack only keys after all of theirs are the latest ones just if they lack none and are
not too many. -/
theorem latest_iff {limit : ℕ} (hlimit : 1 ≤ limit) {keys : Set κ} {l : List α} (h : Sorted key l)
    (hsub : ∀ x ∈ l, key x ∈ keys) (hafter : ∀ k ∈ keys, k ∉ l.map key → ∀ x ∈ l, key x < k) :
    Latest key limit keys l ↔ (∀ k ∈ keys, k ∈ l.map key) ∧ l.length ≤ limit := by
  constructor
  · intro hl
    refine ⟨fun k hk => ?_, hl.length_le⟩
    rcases hl.latest k hk with hmem | ⟨hlength, hbefore⟩
    · exact hmem
    · by_contra hnot
      -- there is a row, and the key would come before and after it
      cases l with
      | nil =>
          rw [List.length_nil] at hlength
          omega
      | cons x l =>
          exact lt_asymm (hbefore x List.mem_cons_self) (hafter k hk hnot x List.mem_cons_self)
  · rintro ⟨hall, hle⟩
    refine latest_of_le h (fun k => ⟨hall k, fun hk => ?_⟩) hle
    obtain ⟨x, hx, rfl⟩ := List.mem_map.1 hk
    exact hsub x hx

/-- A second part that is long enough has the end of a sequence. -/
theorem rtake_append_of_le {limit : ℕ} {first second : List α} (h : limit ≤ second.length) :
    (first ++ second).rtake limit = second.rtake limit := by
  rw [List.rtake, List.rtake, List.length_append, List.drop_append, List.drop_eq_nil_of_le
    (by omega), List.nil_append]
  congr 1
  omega

/-- The end of a sequence has rows of its first part only if the second part is too short. -/
theorem forall_rtake_append {p : α → Prop} {limit : ℕ} {first second : List α}
    (hfirst : ∀ x ∈ first, ¬ p x) (hsecond : ∀ x ∈ second, p x) :
    (∀ x ∈ (first ++ second).rtake limit, p x) ↔ first = [] ∨ limit ≤ second.length := by
  rcases Nat.lt_or_ge second.length limit with hlt | hle
  · have hend : (first ++ second).rtake limit =
        first.drop (first.length + second.length - limit) ++ second := by
      have hdrop : first.length + second.length - limit - first.length = 0 := by omega
      rw [List.rtake, List.length_append, List.drop_append, hdrop, List.drop_zero]
    rw [hend]
    constructor
    · intro h
      refine Or.inl ?_
      by_contra hne
      have hpos := List.length_pos_iff.2 hne
      -- the last row of the first part would be among them
      have hdrop : first.drop (first.length + second.length - limit) ≠ [] := by
        rw [ne_eq, List.drop_eq_nil_iff]
        omega
      have hmem := List.getLast_mem hdrop
      rw [List.getLast_drop] at hmem
      exact hfirst _ (List.getLast_mem hne) (h _ (List.mem_append_left _ hmem))
    · rintro (rfl | h)
      · simpa using hsecond
      · omega
  · rw [rtake_append_of_le hle]
    exact iff_of_true (fun x hx => hsecond x (List.mem_of_mem_drop hx)) (Or.inr hle)

end LatestRows
