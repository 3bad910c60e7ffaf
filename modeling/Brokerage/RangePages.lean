/-
**Pages of a sorted sequence, asked for by their start.**

A sequence with keys that are at least a step apart is served in pages of at most `limit` rows, each
of them the first rows from a given start on.  A client without a cursor asks again from one step
behind the last row that it has got, until a page is short or empty.  It gets the whole sequence.
Nothing in this module refers to a particular sequence.

Main definitions:

* `RangePages.rowsFrom` — the rows from a start on;
* `RangePages.refetch` — the client;
* `RangePages.ServesFrom` — the pages are those of a sequence.

Main results:

* `RangePages.rowsFrom_behind` — behind the last row of a beginning comes the rest;
* `RangePages.refetch_eq` — the client gets the whole sequence.
-/

import Brokerage.CursorPages

set_option relaxedAutoImplicit false
set_option autoImplicit false

namespace RangePages

variable {α : Type} (key : α → ℤ) (step : ℤ)

/-- Each row is at least a step behind the ones before. -/
def Spaced (rows : List α) : Prop := rows.Pairwise fun a b => key a + step ≤ key b

/-- The rows from a start on. -/
def rowsFrom (start : ℤ) (rows : List α) : List α := rows.filter fun r => start ≤ key r

/-- The rows that a client gets with at most that many pages, if it ends within them.  It goes on
from the cursor that a page may name, or else from its last row. -/
def refetch (page : ℤ → CursorPages.Page α ℤ) (limit : ℕ) (stop : ℤ) : ℕ → ℤ → Option (List α)
  | 0, _ => none
  | n + 1, current =>
      if current < stop then
        match (page current).rows.getLast? with
        | none => some []
        | some last =>
            let next := ((page current).next.getD (key last)) + step
            if next ≤ current then some (page current).rows
            else if (page current).rows.length < limit then some (page current).rows
            else (refetch page limit stop n next).map ((page current).rows ++ ·)
      else some []

/-- From a first start on, the pages are those of a sequence, and name no cursor but their last row.
-/
structure ServesFrom (page : ℤ → CursorPages.Page α ℤ) (rows : List α) (limit : ℕ) (first stop : ℤ) :
    Prop where
  rows_eq : ∀ start, first ≤ start → start < stop →
    (page start).rows = (rowsFrom key start rows).take limit
  next_eq : ∀ start, first ≤ start → start < stop → ∀ k, (page start).next = some k →
    CursorPages.lastKey key (page start).rows = some k

variable {key step}

/-- Behind the last row of a beginning comes the rest. -/
theorem rowsFrom_behind {start : ℤ} {rows pre rest : List α} {last : α} (hstep : 0 < step)
    (hspaced : Spaced key step rows) (hsplit : rowsFrom key start rows = pre ++ rest)
    (hlast : pre.getLast? = some last) : rowsFrom key (key last + step) rows = rest := by
  obtain ⟨init, rfl⟩ := List.getLast?_eq_some_iff.1 hlast
  have hmem : last ∈ rowsFrom key start rows := by
    rw [hsplit]
    simp
  have hstart : start ≤ key last := of_decide_eq_true (List.mem_filter.1 hmem).2
  have hfilter : rowsFrom key (key last + step) rows =
      (rowsFrom key start rows).filter fun r => key last + step ≤ key r := by
    rw [rowsFrom, rowsFrom, List.filter_filter]
    refine List.filter_congr fun r _ => ?_
    rw [Bool.eq_iff_iff]
    simp only [Bool.and_eq_true, decide_eq_true_eq]
    omega
  have hsorted : Spaced key step (rowsFrom key start rows) := hspaced.filter _
  rw [hsplit] at hsorted
  obtain ⟨hinit, -, hcross⟩ := List.pairwise_append.1 hsorted
  rw [hfilter, hsplit, List.filter_append, List.filter_eq_nil_iff.2, List.nil_append,
    List.filter_eq_self.2]
  · intro r hr
    exact decide_eq_true (hcross last (List.mem_append_right _ (List.mem_singleton_self last)) r hr)
  · intro r hr
    rw [decide_eq_true_eq, not_le]
    rcases List.mem_append.1 hr with hr | hr
    · have := (List.pairwise_append.1 hinit).2.2 r hr last (List.mem_singleton_self last)
      omega
    · rw [List.mem_singleton.1 hr]
      omega

/-- The client gets all the rows from its start on, with one page for each row at the most. -/
theorem refetch_eq {page : ℤ → CursorPages.Page α ℤ} {rows : List α} {limit : ℕ} {first stop : ℤ}
    (h : ServesFrom key page rows limit first stop) (hspaced : Spaced key step rows)
    (hstep : 0 < step) (hlimit : 1 ≤ limit) (hstop : ∀ r ∈ rows, key r < stop) {n : ℕ} {start : ℤ}
    (hfirst : first ≤ start) (hn : (rowsFrom key start rows).length < n) :
    refetch key step page limit stop n start = some (rowsFrom key start rows) := by
  induction n generalizing start with
  | zero => exact absurd hn (Nat.not_lt_zero _)
  | succ n ih =>
      rw [refetch]
      by_cases hlt : start < stop
      · rw [if_pos hlt]
        have hrows := h.rows_eq start hfirst hlt
        cases hlast : (page start).rows.getLast? with
        | none =>
            -- an empty page
            rw [List.getLast?_eq_none_iff, hrows, List.take_eq_nil_iff] at hlast
            rw [hlast.resolve_left (by omega)]
        | some last =>
            have hnext : (page start).next.getD (key last) = key last := by
              cases hcursor : (page start).next with
              | none => rfl
              | some k =>
                  have hk := h.next_eq start hfirst hlt k hcursor
                  rw [CursorPages.lastKey, hlast] at hk
                  exact (Option.some.inj hk).symm
            have hmem : last ∈ rowsFrom key start rows :=
              List.mem_of_mem_take (hrows ▸ List.mem_of_getLast? hlast)
            have hstart : start ≤ key last := of_decide_eq_true (List.mem_filter.1 hmem).2
            dsimp only
            rw [hnext, if_neg (by omega), hrows]
            by_cases hshort : ((rowsFrom key start rows).take limit).length < limit
            · -- a short page has the last rows
              rw [if_pos hshort, List.take_of_length_le]
              rw [List.length_take] at hshort
              omega
            · rw [if_neg hshort]
              have hrest := rowsFrom_behind hstep hspaced
                (List.take_append_drop limit (rowsFrom key start rows)).symm (hrows ▸ hlast)
              have hfewer : (rowsFrom key (key last + step) rows).length < n := by
                rw [List.length_take] at hshort
                rw [hrest, List.length_drop]
                omega
              rw [ih (by omega) hfewer, hrest, Option.map_some, List.take_append_drop]
      · rw [if_neg hlt]
        refine congrArg some (List.filter_eq_nil_iff.2 fun r hr => ?_).symm
        have := hstop r hr
        rw [decide_eq_true_eq]
        omega

end RangePages
