/-
**The four prices of a list of prices.**

A bar has the first price of a list, the largest, the smallest and the last.  It can be kept while
the prices come in, one by one.  Nothing in this module refers to a particular market.

Main definitions:

* `PriceBar` — the four prices; `PriceBar.first`, `PriceBar.add` — keeping them;
* `PriceBar.IsBarOf` — they are those of a list; `PriceBar.of?` — finding them.

Main results:

* `PriceBar.IsBarOf.add` — a price that comes in;
* `PriceBar.IsBarOf.unique` — a list has one bar;
* `PriceBar.of?_eq_some_iff` — and it is found;
* `PriceBar.of?_eq_of?_iff` — when fewer prices have the same bar.
-/

import Mathlib

set_option relaxedAutoImplicit false
set_option autoImplicit false

/-- The first, the largest, the smallest and the last of some prices. -/
structure PriceBar where
  open_ : ℚ
  high : ℚ
  low : ℚ
  close : ℚ
  deriving DecidableEq

namespace PriceBar

/-- The bar of one price. -/
def first (price : ℚ) : PriceBar := ⟨price, price, price, price⟩

/-- The bar when a price comes in. -/
def add (b : PriceBar) (price : ℚ) : PriceBar :=
  { b with high := max b.high price, low := min b.low price, close := price }

/-- The bar of a list. -/
structure IsBarOf (b : PriceBar) (prices : List ℚ) : Prop where
  head : prices.head? = some b.open_
  last : prices.getLast? = some b.close
  high_mem : b.high ∈ prices
  le_high : ∀ price ∈ prices, price ≤ b.high
  low_mem : b.low ∈ prices
  low_le : ∀ price ∈ prices, b.low ≤ price

variable {b b' : PriceBar} {prices : List ℚ}

theorem isBarOf_first (price : ℚ) : IsBarOf (first price) [price] where
  head := rfl
  last := rfl
  high_mem := List.mem_singleton_self price
  le_high _ hp := (List.mem_singleton.1 hp).le
  low_mem := List.mem_singleton_self price
  low_le _ hp := (List.mem_singleton.1 hp).ge

theorem IsBarOf.ne_nil (h : IsBarOf b prices) : prices ≠ [] := List.ne_nil_of_mem h.high_mem

/-- The bar of a list to which a price is added. -/
theorem IsBarOf.add (h : IsBarOf b prices) (price : ℚ) :
    IsBarOf (b.add price) (prices ++ [price]) where
  head := by
    rw [List.head?_append, h.head]
    rfl
  last := List.getLast?_concat
  high_mem := by
    rcases max_choice b.high price with hmax | hmax
    · exact List.mem_append_left _ (by rw [PriceBar.add, hmax]; exact h.high_mem)
    · exact List.mem_append_right _ (by rw [PriceBar.add, hmax]; exact List.mem_singleton_self _)
  le_high p hp := by
    rcases List.mem_append.1 hp with hp | hp
    · exact (h.le_high p hp).trans (le_max_left _ _)
    · rw [List.mem_singleton.1 hp]
      exact le_max_right _ _
  low_mem := by
    rcases min_choice b.low price with hmin | hmin
    · exact List.mem_append_left _ (by rw [PriceBar.add, hmin]; exact h.low_mem)
    · exact List.mem_append_right _ (by rw [PriceBar.add, hmin]; exact List.mem_singleton_self _)
  low_le p hp := by
    rcases List.mem_append.1 hp with hp | hp
    · exact (min_le_left _ _).trans (h.low_le p hp)
    · rw [List.mem_singleton.1 hp]
      exact min_le_right _ _

/-- A list has one bar. -/
theorem IsBarOf.unique (h : IsBarOf b prices) (h' : IsBarOf b' prices) : b = b' := by
  obtain ⟨o, hi, lo, c⟩ := b
  obtain ⟨o', hi', lo', c'⟩ := b'
  obtain rfl : o = o' := Option.some.inj (h.head.symm.trans h'.head)
  obtain rfl : c = c' := Option.some.inj (h.last.symm.trans h'.last)
  obtain rfl : hi = hi' := le_antisymm (h'.le_high _ h.high_mem) (h.le_high _ h'.high_mem)
  obtain rfl : lo = lo' := le_antisymm (h.low_le _ h'.low_mem) (h'.low_le _ h.low_mem)
  rfl

theorem IsBarOf.open_mem (h : IsBarOf b prices) : b.open_ ∈ prices := List.mem_of_head? h.head

theorem IsBarOf.close_mem (h : IsBarOf b prices) : b.close ∈ prices :=
  List.mem_of_getLast? h.last

/-- The bar of some prices, unless there are none. -/
def of? : List ℚ → Option PriceBar
  | [] => none
  | p :: ps => some ⟨p, ps.foldl max p, ps.foldl min p, (p :: ps).getLast (List.cons_ne_nil p ps)⟩

theorem foldl_add (b : PriceBar) (p : ℚ) (ps : List ℚ) :
    (p :: ps).foldl add b = ⟨b.open_, (p :: ps).foldl max b.high, (p :: ps).foldl min b.low,
      (p :: ps).getLast (List.cons_ne_nil p ps)⟩ := by
  induction ps generalizing b p with
  | nil => rfl
  | cons q qs ih =>
      rw [List.foldl_cons, ih, List.getLast_cons (List.cons_ne_nil q qs)]
      rfl

/-- A bar that is kept from some prices on is that of all prices. -/
theorem IsBarOf.foldl_add (h : IsBarOf b prices) (ps : List ℚ) :
    IsBarOf (ps.foldl PriceBar.add b) (prices ++ ps) := by
  induction ps generalizing b prices with
  | nil => rwa [List.append_nil]
  | cons p ps ih =>
      have hnext := ih (h.add p)
      rwa [List.append_assoc, List.singleton_append] at hnext

theorem isBarOf_of?_cons (p : ℚ) (ps : List ℚ) :
    IsBarOf ⟨p, ps.foldl max p, ps.foldl min p, (p :: ps).getLast (List.cons_ne_nil p ps)⟩
      (p :: ps) := by
  have h := (isBarOf_first p).foldl_add ps
  cases ps with
  | nil => exact h
  | cons q qs =>
      rw [PriceBar.foldl_add] at h
      exact h

/-- The bar of some prices is their bar. -/
theorem of?_eq_some_iff : of? prices = some b ↔ IsBarOf b prices := by
  cases prices with
  | nil => exact ⟨fun h => (by cases h), fun h => absurd rfl h.ne_nil⟩
  | cons p ps =>
      rw [of?, Option.some.injEq]
      constructor
      · rintro rfl
        exact isBarOf_of?_cons p ps
      · exact (isBarOf_of?_cons p ps).unique

theorem of?_eq_none_iff : of? prices = none ↔ prices = [] := by
  cases prices with
  | nil => exact ⟨fun _ => rfl, fun _ => rfl⟩
  | cons p ps => exact ⟨fun h => (by cases h), fun h => by cases h⟩

/-! ### Fewer prices -/

/-- Fewer prices have the same bar: the first and the last price are those of all, and every price
lies between two of them. -/
def SameBar (fewer prices : List ℚ) : Prop :=
  prices ≠ [] → fewer.head? = prices.head? ∧ fewer.getLast? = prices.getLast? ∧
    ∀ p ∈ prices, (∃ q ∈ fewer, q ≤ p) ∧ ∃ q ∈ fewer, p ≤ q

theorem of?_eq_of?_iff {fewer : List ℚ} (h : fewer ⊆ prices) :
    of? fewer = of? prices ↔ SameBar fewer prices := by
  constructor
  · intro heq hne
    obtain ⟨b, hb⟩ := Option.ne_none_iff_exists'.1 (mt of?_eq_none_iff.1 hne)
    have hbar := of?_eq_some_iff.1 hb
    have hfewer := of?_eq_some_iff.1 (heq.trans hb)
    refine ⟨hfewer.head.trans hbar.head.symm, hfewer.last.trans hbar.last.symm, fun p hp => ?_⟩
    exact ⟨⟨b.low, hfewer.low_mem, hbar.low_le p hp⟩, b.high, hfewer.high_mem, hbar.le_high p hp⟩
  · intro hsame
    by_cases hne : prices = []
    · subst hne
      rw [List.subset_nil.1 h]
    · obtain ⟨hhead, hlast, hbetween⟩ := hsame hne
      have hfewerNe : fewer ≠ [] := by
        rintro rfl
        exact hne (List.head?_eq_none_iff.1 hhead.symm)
      obtain ⟨b, hb⟩ := Option.ne_none_iff_exists'.1 (mt of?_eq_none_iff.1 hfewerNe)
      have hfewer := of?_eq_some_iff.1 hb
      refine hb.trans (of?_eq_some_iff.2 ?_).symm
      refine ⟨hhead ▸ hfewer.head, hlast ▸ hfewer.last, h hfewer.high_mem, fun p hp => ?_,
        h hfewer.low_mem, fun p hp => ?_⟩
      · obtain ⟨-, q, hq, hle⟩ := hbetween p hp
        exact hle.trans (hfewer.le_high q hq)
      · obtain ⟨⟨q, hq, hle⟩, -⟩ := hbetween p hp
        exact (hfewer.low_le q hq).trans hle

end PriceBar
