/-
**Half-open spans of a line, and the gaps between points.**

A span is given by its first point and by the first point after it, in any linear order.  A list of
spans is ascending if none is empty and each one ends before the next begins; it tiles another list
if the two cover the same points.  The gaps that some points leave in a span are found by one pass
over the points, in an order in which every point has a successor, and are the largest spans
without these points.  Nothing in this module refers to a particular program.

Main definitions:

* `Span`, `Span.points`, `Span.cover` — a span, its points, and the points of a list of spans;
* `Span.Ascending`, `Span.Tiles` — ascending lists, and tilings;
* `Span.Runs` — the maximal spans with the points of a set;
* `Span.gaps` — the gaps that points leave in a span.

Main results:

* `Span.Tiles.cons`, `Span.Tiles.split` — how tilings are put together;
* `Span.Runs.skip`, `Span.Runs.cons` — how the runs of a set are put together;
* `Span.gaps_ascending`, `Span.cover_gaps`, `Span.gaps_maximal` — what the gaps are;
* `Span.sum_gaps` — how many integers they have;
* `Span.Ascending.card_filter_cover` — how many integers of a window ascending spans have.
-/

import Mathlib

set_option relaxedAutoImplicit false
set_option autoImplicit false

/-- A span, from its first point to the first point after it. -/
structure Span (α : Type*) where
  lo : α
  hi : α
  deriving DecidableEq

namespace Span

section Order

variable {α : Type*} [LinearOrder α]

/-- The points of a span. -/
def points (s : Span α) : Set α := Set.Ico s.lo s.hi

/-- The points of some spans. -/
def cover (ss : List (Span α)) : Set α := {x | ∃ s ∈ ss, x ∈ s.points}

@[simp] theorem cover_nil : cover ([] : List (Span α)) = ∅ := by
  simp [cover]

@[simp] theorem cover_cons (s : Span α) (ss : List (Span α)) :
    cover (s :: ss) = s.points ∪ cover ss := by
  ext x
  simp [cover]

@[simp] theorem cover_append (ss ts : List (Span α)) :
    cover (ss ++ ts) = cover ss ∪ cover ts := by
  induction ss with
  | nil => simp
  | cons s ss ih => simp [ih, Set.union_assoc]

theorem mem_points {s : Span α} {x : α} : x ∈ s.points ↔ s.lo ≤ x ∧ x < s.hi := Iff.rfl

/-! ### Ascending lists -/

/-- No span is empty, and each one ends before the next begins. -/
structure Ascending (ss : List (Span α)) : Prop where
  lt : ∀ s ∈ ss, s.lo < s.hi
  pairwise : ss.Pairwise fun s t => s.hi ≤ t.lo

theorem Ascending.nil : Ascending ([] : List (Span α)) := ⟨by simp, List.Pairwise.nil⟩

theorem Ascending.append {ss ts : List (Span α)} (hs : Ascending ss) (ht : Ascending ts)
    (h : ∀ s ∈ ss, ∀ t ∈ ts, s.hi ≤ t.lo) : Ascending (ss ++ ts) := by
  refine ⟨fun s hmem => ?_, List.pairwise_append.2 ⟨hs.pairwise, ht.pairwise, h⟩⟩
  rcases List.mem_append.1 hmem with hmem | hmem
  · exact hs.lt s hmem
  · exact ht.lt s hmem

theorem Ascending.singleton {s : Span α} (h : s.lo < s.hi) : Ascending [s] :=
  ⟨by simpa using h, List.pairwise_singleton _ s⟩

theorem Ascending.tail {s : Span α} {ss : List (Span α)} (h : Ascending (s :: ss)) :
    Ascending ss :=
  ⟨fun t ht => h.lt t (List.mem_cons_of_mem _ ht), h.pairwise.of_cons⟩

/-- Ascending spans have no point in common. -/
theorem Ascending.disjoint {ss : List (Span α)} (h : Ascending ss) :
    ss.Pairwise fun s t => Disjoint s.points t.points := by
  refine h.pairwise.imp fun {s t} hst => Set.disjoint_left.2 fun x hs ht => ?_
  rw [mem_points] at hs ht
  exact absurd (hs.2.trans_le (hst.trans ht.1)) (lt_irrefl x)

/-- Spans whose points are among those of a span lie in it. -/
theorem Ascending.bounds {ss : List (Span α)} (h : Ascending ss) {lo hi : α}
    (hcover : cover ss ⊆ Set.Ico lo hi) {s : Span α} (hs : s ∈ ss) : lo ≤ s.lo ∧ s.hi ≤ hi := by
  have hsub : Set.Ico s.lo s.hi ⊆ Set.Ico lo hi := fun x hx => hcover ⟨s, hs, hx⟩
  exact (Set.Ico_subset_Ico_iff (h.lt s hs)).1 hsub

/-! ### Tilings -/

/-- Ascending spans with the points of other spans. -/
structure Tiles (ss ts : List (Span α)) : Prop where
  ascending : Ascending ts
  cover_eq : cover ts = cover ss

theorem Tiles.nil : Tiles ([] : List (Span α)) [] := ⟨Ascending.nil, rfl⟩

theorem Tiles.self {s : Span α} (h : s.lo < s.hi) : Tiles [s] [s] := ⟨Ascending.singleton h, rfl⟩

/-- A span without points needs no tiles. -/
theorem Tiles.empty {lo hi : α} (h : hi ≤ lo) : Tiles [⟨lo, hi⟩] [] := by
  refine ⟨Ascending.nil, ?_⟩
  rw [cover_cons, cover_nil, Set.union_empty]
  exact (Set.Ico_eq_empty h.not_gt).symm

/-- A span is tiled from its first point on. -/
theorem Tiles.split {lo mid hi : α} {ts : List (Span α)} (hlo : lo < mid) (hhi : mid ≤ hi)
    (h : Tiles [⟨mid, hi⟩] ts) : Tiles [⟨lo, hi⟩] (⟨lo, mid⟩ :: ts) := by
  have hcover : cover ts = Set.Ico mid hi := by
    rw [h.cover_eq, cover_cons, cover_nil, Set.union_empty]
    rfl
  refine ⟨(Ascending.singleton hlo).append h.ascending fun s hs t ht => ?_, ?_⟩
  · obtain rfl := List.mem_singleton.1 hs
    exact (h.ascending.bounds hcover.subset ht).1
  · rw [cover_cons, hcover, cover_cons, cover_nil, Set.union_empty]
    exact Set.Ico_union_Ico_eq_Ico hlo.le hhi

/-- Ascending spans are tiled one after the other. -/
theorem Tiles.cons {s : Span α} {ss ts us : List (Span α)} (hs : Ascending (s :: ss))
    (ht : Tiles [s] ts) (hu : Tiles ss us) : Tiles (s :: ss) (ts ++ us) := by
  have hcover : cover ts = Set.Ico s.lo s.hi := by
    rw [ht.cover_eq, cover_cons, cover_nil, Set.union_empty]
    rfl
  refine ⟨ht.ascending.append hu.ascending fun t htm u hum => ?_, ?_⟩
  · -- the first point of a tile of the later spans is in one of them
    have hmem : u.lo ∈ cover ss := hu.cover_eq ▸ ⟨u, hum, le_rfl, hu.ascending.lt u hum⟩
    obtain ⟨s', hs', hle, -⟩ := hmem
    have hbefore : s.hi ≤ s'.lo := List.rel_of_pairwise_cons hs.pairwise hs'
    exact ((ht.ascending.bounds hcover.subset htm).2.trans hbefore).trans hle
  · rw [cover_append, hu.cover_eq, ht.cover_eq, cover_cons, cover_cons, cover_nil, Set.union_empty]

end Order

/-- The points are the largest of a set around the span. -/
def IsMaximal {α : Type*} [LinearOrder α] (S : Set α) (s : Span α) : Prop :=
  s.points ⊆ S ∧ ∀ t : Span α, t.points ⊆ S → s.points ⊆ t.points → t = s

/-! ### Runs of a set -/

section Runs

variable {α : Type*} [LinearOrder α]

/-- The runs of a set in a span: ascending and maximal spans with the points of the set. -/
structure Runs (S : Set α) (lo hi : α) (ss : List (Span α)) : Prop where
  ascending : Ascending ss
  cover_eq : cover ss = S ∩ Set.Ico lo hi
  maximal : ∀ s ∈ ss, IsMaximal (S ∩ Set.Ico lo hi) s

namespace Runs

variable {S : Set α} {lo mid hi : α} {ss : List (Span α)}

theorem nil (h : hi ≤ lo) : Runs S lo hi [] where
  ascending := Ascending.nil
  cover_eq := by rw [cover_nil, Set.Ico_eq_empty h.not_gt, Set.inter_empty]
  maximal _ hs := absurd hs List.not_mem_nil

/-- Points that are not in the set may be put before. -/
theorem skip (h : Runs S mid hi ss) (hlo : lo ≤ mid) (hout : ∀ x, lo ≤ x → x < mid → x ∉ S) :
    Runs S lo hi ss := by
  have hset : S ∩ Set.Ico lo hi = S ∩ Set.Ico mid hi := by
    ext x
    simp only [Set.mem_inter_iff, Set.mem_Ico]
    refine and_congr_right fun hx => and_congr_left fun _ => ⟨fun hle => ?_, hlo.trans⟩
    exact not_lt.1 fun hlt => hout x hle hlt hx
  exact ⟨h.ascending, hset ▸ h.cover_eq, hset ▸ h.maximal⟩

/-- A run is put before the others, if it ends where the set does or with the span. -/
theorem cons (h : Runs S mid hi ss) (hlo : lo < mid) (hhi : mid ≤ hi)
    (hin : ∀ x, lo ≤ x → x < mid → x ∈ S) (hend : mid = hi ∨ mid ∉ S) :
    Runs S lo hi (⟨lo, mid⟩ :: ss) := by
  have hbounds : ∀ s ∈ ss, mid ≤ s.lo ∧ s.hi ≤ hi := fun s hs =>
    h.ascending.bounds (h.cover_eq.subset.trans Set.inter_subset_right) hs
  -- a span of the set does not go on beyond the end of the run
  have hstop : ∀ t : Span α, t.points ⊆ S ∩ Set.Ico lo hi → ¬ (t.lo ≤ mid ∧ mid < t.hi) := by
    intro t ht hmid
    obtain ⟨hmem, -, hlt⟩ := ht hmid
    rcases hend with rfl | hnot
    · exact lt_irrefl _ hlt
    · exact hnot hmem
  refine ⟨?_, ?_, fun s hs => ?_⟩
  · refine (Ascending.singleton hlo).append h.ascending fun s hs t ht => ?_
    obtain rfl := List.mem_singleton.1 hs
    exact (hbounds t ht).1
  · rw [cover_cons, h.cover_eq, ← Set.Ico_union_Ico_eq_Ico hlo.le hhi, Set.inter_union_distrib_left]
    congr 1
    exact (Set.inter_eq_right.2 fun x hx => hin x hx.1 hx.2).symm
  · rcases List.mem_cons.1 hs with rfl | hs
    · refine ⟨fun x hx => ⟨hin x hx.1 hx.2, hx.1, hx.2.trans_le hhi⟩, fun t ht hst => ?_⟩
      obtain ⟨htlo, hthi⟩ := (Set.Ico_subset_Ico_iff hlo).1 hst
      have hfirst : lo ≤ t.lo := (ht ⟨le_rfl, htlo.trans_lt (hlo.trans_le hthi)⟩).2.1
      have hlast : t.hi ≤ mid := not_lt.1 fun hlt => hstop t ht ⟨htlo.trans hlo.le, hlt⟩
      cases t
      simp_all [le_antisymm_iff]
    · have hlt := h.ascending.lt s hs
      obtain ⟨hin, hlargest⟩ := h.maximal s hs
      refine ⟨fun x hx => ⟨(hin hx).1, hlo.le.trans (hin hx).2.1, (hin hx).2.2⟩, fun t ht hst => ?_⟩
      refine hlargest t (fun x hx => ⟨(ht hx).1, ?_, (ht hx).2.2⟩) hst
      obtain ⟨htlo, hthi⟩ := (Set.Ico_subset_Ico_iff hlt).1 hst
      refine le_trans (not_lt.1 fun hbefore => ?_) hx.1
      exact hstop t ht ⟨hbefore.le, (hbounds s hs).1.trans_lt (hlt.trans_le hthi)⟩

end Runs

end Runs

/-! ### Gaps -/

section Gaps

variable {α : Type*} [LinearOrder α]

/-- Points of a span, in strict order. -/
structure Within (lo hi : α) (xs : List α) : Prop where
  le : ∀ x ∈ xs, lo ≤ x
  lt : ∀ x ∈ xs, x < hi
  sorted : xs.Pairwise (· < ·)

variable [SuccOrder α]

/-- The gaps that points leave in a span. -/
def gaps (hi : α) : α → List α → List (Span α)
  | lo, [] => if lo < hi then [⟨lo, hi⟩] else []
  | lo, x :: xs => (if lo < x then [⟨lo, x⟩] else []) ++ gaps hi (Order.succ x) xs

variable {lo hi : α} {xs : List α}

theorem Within.tail {x : α} (h : Within lo hi (x :: xs)) :
    Within (Order.succ x) hi xs ∧ Order.succ x ≤ hi := by
  refine ⟨⟨fun y hy => ?_, fun y hy => h.lt y (List.mem_cons_of_mem _ hy), h.sorted.of_cons⟩, ?_⟩
  · exact Order.succ_le_of_lt (List.rel_of_pairwise_cons h.sorted hy)
  · exact Order.succ_le_of_lt (h.lt x List.mem_cons_self)

/-- A gap begins with the span or after a point, and ends with the span or at a point. -/
theorem gaps_ends {s : Span α} (hs : s ∈ gaps hi lo xs) :
    s.lo < s.hi ∧ (s.lo = lo ∨ ∃ x ∈ xs, s.lo = Order.succ x) ∧ (s.hi = hi ∨ s.hi ∈ xs) := by
  induction xs generalizing lo with
  | nil =>
      rw [gaps] at hs
      split at hs
      · rename_i hlt
        obtain rfl := List.mem_singleton.1 hs
        exact ⟨hlt, Or.inl rfl, Or.inl rfl⟩
      · cases hs
  | cons x xs ih =>
      rw [gaps, List.mem_append] at hs
      rcases hs with hs | hs
      · split at hs
        · rename_i hlt
          obtain rfl := List.mem_singleton.1 hs
          exact ⟨hlt, Or.inl rfl, Or.inr List.mem_cons_self⟩
        · cases hs
      · obtain ⟨hlt, hlo, hhi⟩ := ih hs
        refine ⟨hlt, Or.inr ?_, hhi.imp_right (List.mem_cons_of_mem _)⟩
        rcases hlo with hlo | ⟨y, hy, hlo⟩
        · exact ⟨x, List.mem_cons_self, hlo⟩
        · exact ⟨y, List.mem_cons_of_mem _ hy, hlo⟩

variable [NoMaxOrder α]

/-- The gaps have the points of the span but the given ones. -/
theorem cover_gaps (h : Within lo hi xs) :
    cover (gaps hi lo xs) = Set.Ico lo hi \ {x | x ∈ xs} := by
  induction xs generalizing lo with
  | nil =>
      rw [gaps]
      split
      · simp [points]
      · rename_i hlt
        simp [Set.Ico_eq_empty hlt]
  | cons x xs ih =>
      obtain ⟨htail, hsucc⟩ := h.tail
      have hfirst : cover (if lo < x then [⟨lo, x⟩] else []) = Set.Ico lo x := by
        split
        · simp [points]
        · rename_i hlt
          simp [Set.Ico_eq_empty hlt]
      rw [gaps, cover_append, hfirst, ih htail]
      ext y
      simp only [Set.mem_union, Set.mem_sdiff, Set.mem_Ico, Set.mem_ofPred_eq, List.mem_cons,
        Order.succ_le_iff]
      have hlo := h.le x List.mem_cons_self
      have hhi := h.lt x List.mem_cons_self
      constructor
      · rintro (⟨hle, hlt⟩ | ⟨⟨hlt, hyhi⟩, hy⟩)
        · refine ⟨⟨hle, hlt.trans hhi⟩, ?_⟩
          rintro (rfl | hy)
          · exact lt_irrefl _ hlt
          · exact lt_asymm hlt (List.rel_of_pairwise_cons h.sorted hy)
        · refine ⟨⟨hlo.trans hlt.le, hyhi⟩, ?_⟩
          rintro (rfl | hy')
          · exact lt_irrefl _ hlt
          · exact hy hy'
      · rintro ⟨⟨hle, hyhi⟩, hy⟩
        rcases lt_trichotomy y x with hlt | rfl | hlt
        · exact Or.inl ⟨hle, hlt⟩
        · exact absurd (Or.inl rfl) hy
        · exact Or.inr ⟨⟨hlt, hyhi⟩, fun hy' => hy (Or.inr hy')⟩

theorem gaps_ascending (h : Within lo hi xs) : Ascending (gaps hi lo xs) := by
  induction xs generalizing lo with
  | nil =>
      rw [gaps]
      split
      · rename_i hlt
        exact Ascending.singleton hlt
      · exact Ascending.nil
  | cons x xs ih =>
      obtain ⟨htail, -⟩ := h.tail
      have hrest := ih htail
      have hbounds : ∀ s ∈ gaps hi (Order.succ x) xs, x ≤ s.lo := fun s hs =>
        (Order.le_succ x).trans
          (hrest.bounds ((cover_gaps htail).subset.trans Set.sdiff_subset) hs).1
      rw [gaps]
      split
      · rename_i hlt
        refine (Ascending.singleton hlt).append hrest fun s hs t ht => ?_
        obtain rfl := List.mem_singleton.1 hs
        exact hbounds t ht
      · exact hrest

/-- No gap is part of a larger span without the points. -/
theorem gaps_maximal (h : Within lo hi xs) {s : Span α} (hs : s ∈ gaps hi lo xs) :
    IsMaximal (Set.Ico lo hi \ {x | x ∈ xs}) s := by
  obtain ⟨hlt, hlo, hhi⟩ := gaps_ends hs
  refine ⟨fun x hx => cover_gaps h ▸ ⟨s, hs, hx⟩, fun t ht hst => ?_⟩
  obtain ⟨htlo, hthi⟩ := (Set.Ico_subset_Ico_iff hlt).1 hst
  have hmem : ∀ x, t.lo ≤ x → x < t.hi → (lo ≤ x ∧ x < hi) ∧ x ∉ xs := fun x h1 h2 => ht ⟨h1, h2⟩
  have hloeq : t.lo = s.lo := by
    refine le_antisymm htlo (not_lt.1 fun hbefore => ?_)
    rcases hlo with hlo | ⟨x, hx, hlo⟩
    · have hin := hmem t.lo le_rfl (hbefore.trans (hlt.trans_le hthi))
      exact absurd (hbefore.trans_eq hlo) (not_lt.2 hin.1.1)
    · -- the point before the gap would be in the span
      have hle : t.lo ≤ x := Order.lt_succ_iff.1 (hbefore.trans_eq hlo)
      have hxlt : x < s.lo := (Order.lt_succ x).trans_eq hlo.symm
      exact (hmem x hle (hxlt.trans (hlt.trans_le hthi))).2 hx
  have hhieq : t.hi = s.hi := by
    refine le_antisymm (not_lt.1 fun hafter => ?_) hthi
    have hin := hmem s.hi (htlo.trans hlt.le) hafter
    rcases hhi with hhi | hhi
    · exact absurd hin.1.2 (not_lt.2 hhi.ge)
    · exact hin.2 hhi
  cases t
  cases s
  simp_all

end Gaps

/-! ### Integers -/

theorem ncard_points (s : Span ℤ) : (s.points.ncard : ℤ) = max 0 (s.hi - s.lo) := by
  rw [points, ← Finset.coe_Ico, Set.ncard_coe_finset, Int.card_Ico]
  omega

open Classical in
/-- The integers of a window that ascending spans have are counted span by span. -/
theorem Ascending.card_filter_cover {ss : List (Span ℤ)} (h : Ascending ss) (a b : ℤ) :
    (((Finset.Ico a b).filter (· ∈ cover ss)).card : ℤ) =
      (ss.map fun s => max 0 (min s.hi b - max s.lo a)).sum := by
  induction ss with
  | nil => simp
  | cons s ss ih =>
      have hone : (Finset.Ico a b).filter (· ∈ s.points) = Finset.Ico (max s.lo a) (min s.hi b) := by
        ext x
        simp only [Finset.mem_filter, Finset.mem_Ico, mem_points]
        omega
      have hdisjoint : Disjoint ((Finset.Ico a b).filter (· ∈ s.points))
          ((Finset.Ico a b).filter (· ∈ cover ss)) := by
        refine Finset.disjoint_left.2 fun x hx hx' => ?_
        obtain ⟨t, ht, hxt⟩ := (Finset.mem_filter.1 hx').2
        exact Set.disjoint_left.1 (List.rel_of_pairwise_cons h.disjoint ht) (Finset.mem_filter.1 hx).2
          hxt
      rw [List.map_cons, List.sum_cons, ← ih h.tail, cover_cons]
      simp only [Set.mem_union, Finset.filter_or]
      rw [Finset.card_union_of_disjoint hdisjoint, hone, Int.card_Ico]
      push_cast
      omega

/-- The gaps have as many integers as the span, less the points. -/
theorem sum_gaps {lo hi : ℤ} {xs : List ℤ} (h : Within lo hi xs) (hle : lo ≤ hi) :
    ((gaps hi lo xs).map fun s => s.hi - s.lo).sum = hi - lo - xs.length := by
  induction xs generalizing lo with
  | nil =>
      rw [gaps]
      split
      · simp
      · simp
        omega
  | cons x xs ih =>
      obtain ⟨htail, hsucc⟩ := h.tail
      have hlo := h.le x List.mem_cons_self
      have hrest := ih htail hsucc
      rw [Order.succ_eq_add_one] at hrest
      rw [gaps, List.map_append, List.sum_append, Order.succ_eq_add_one, hrest, List.length_cons]
      split
      · simp
        omega
      · simp
        omega

end Span
