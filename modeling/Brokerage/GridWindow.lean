/-
**Points of a grid in a window.**

A grid has a point at every multiple of its step.  Some of the points of a window are present, in
ascending order, and the others are missing.  Between the first and the last of those present the
missing ones can be counted from the distance; in the whole window there are as many of them just if
the first point of the window and the last one are present.  Nothing in this module refers to a
particular grid.

Main definitions:

* `GridWindow.points` — the points of a window;
* `GridWindow.count` — how many of them have a property;
* `GridWindow.missing` — how many of them are missing;
* `GridWindow.gapSizes` — how many are missing between two that are present;
* `GridWindow.Present` — ascending points of a window.

Main results:

* `GridWindow.mem_points`, `GridWindow.card_points` — the points;
* `GridWindow.count_add_count`, `GridWindow.count_add_count_not` — splits of a window and of its points;
* `GridWindow.missing_add_length` — the missing points and those present;
* `GridWindow.missing_le_iff` — when the distance counts all missing points;
* `GridWindow.span_sub_length` — the distance counts the missing points gap by gap.
-/

import Mathlib

set_option relaxedAutoImplicit false
set_option autoImplicit false

namespace GridWindow

/-- The number of the first point that is not before a place. -/
def index (step t : ℤ) : ℤ := -(-t / step)

/-- The points of a window. -/
noncomputable def points (step lo hi : ℤ) : Finset ℤ :=
  (Finset.Ico (index step lo) (index step hi)).image (step * ·)

/-- How many points of a window are not in a list. -/
noncomputable def missing (step lo hi : ℤ) (l : List ℤ) : ℕ := ((points step lo hi).filter (· ∉ l)).card

/-- Ascending points of a window. -/
structure Present (step lo hi : ℤ) (l : List ℤ) : Prop where
  sorted : l.Pairwise (· < ·)
  dvd : ∀ t ∈ l, step ∣ t
  le : ∀ t ∈ l, lo ≤ t
  lt : ∀ t ∈ l, t < hi

variable {step lo hi : ℤ} {l : List ℤ}

/-! ### The points -/

theorem index_le_iff (hstep : 0 < step) {t k : ℤ} : index step t ≤ k ↔ t ≤ step * k := by
  have hdiv : -k ≤ -t / step ↔ -k * step ≤ -t := Int.le_ediv_iff_mul_le hstep
  have hmul : -k * step = -(step * k) := by ring
  rw [hmul, neg_le_neg_iff] at hdiv
  rw [← hdiv, index, neg_le]

theorem lt_index_iff (hstep : 0 < step) {t k : ℤ} : k < index step t ↔ step * k < t := by
  rw [← not_le, index_le_iff hstep, not_le]

theorem index_mul (hstep : 0 < step) (k : ℤ) : index step (step * k) = k := by
  rw [index, ← mul_neg, Int.mul_ediv_cancel_left _ hstep.ne', neg_neg]

theorem mem_points (hstep : 0 < step) {m : ℤ} :
    m ∈ points step lo hi ↔ step ∣ m ∧ lo ≤ m ∧ m < hi := by
  rw [points, Finset.mem_image]
  constructor
  · rintro ⟨k, hk, rfl⟩
    obtain ⟨hle, hlt⟩ := Finset.mem_Ico.1 hk
    exact ⟨Dvd.intro k rfl, (index_le_iff hstep).1 hle, (lt_index_iff hstep).1 hlt⟩
  · rintro ⟨⟨k, rfl⟩, hle, hlt⟩
    exact ⟨k, Finset.mem_Ico.2 ⟨(index_le_iff hstep).2 hle, (lt_index_iff hstep).2 hlt⟩, rfl⟩

theorem card_points (hstep : 0 < step) :
    (points step lo hi).card = (index step hi - index step lo).toNat := by
  rw [points, Finset.card_image_of_injective, Int.card_Ico]
  exact fun a b hab => mul_left_cancel₀ hstep.ne' hab

/-! ### Points with a property -/

/-- How many points of a window have a property. -/
noncomputable def count (p : ℤ → Bool) (step lo hi : ℤ) : ℕ :=
  ((points step lo hi).filter (p · = true)).card

/-- Windows with the same points. -/
theorem count_congr (hstep : 0 < step) {p : ℤ → Bool} {lo' hi' : ℤ}
    (h : ∀ m, step ∣ m → (lo ≤ m ∧ m < hi ↔ lo' ≤ m ∧ m < hi')) :
    count p step lo hi = count p step lo' hi' := by
  have hpoints : points step lo hi = points step lo' hi' := by
    ext m
    rw [mem_points hstep, mem_points hstep]
    exact and_congr_right (h m)
  rw [count, count, hpoints]

/-- A property that no point has. -/
theorem count_eq_zero {p : ℤ → Bool} (h : ∀ m, p m = false) : count p step lo hi = 0 := by
  rw [count, Finset.card_eq_zero, Finset.filter_eq_empty_iff]
  intro m _
  rw [h m]
  decide

theorem count_of_le (hstep : 0 < step) (p : ℤ → Bool) (h : hi ≤ lo) : count p step lo hi = 0 := by
  rw [count, Finset.card_eq_zero, Finset.filter_eq_empty_iff]
  intro m hm
  obtain ⟨-, hle, hlt⟩ := (mem_points hstep).1 hm
  omega

/-- A window is split. -/
theorem count_add_count (hstep : 0 < step) (p : ℤ → Bool) {mid : ℤ} (hlo : lo ≤ mid)
    (hhi : mid ≤ hi) : count p step lo mid + count p step mid hi = count p step lo hi := by
  have hdisjoint : Disjoint ((points step lo mid).filter (p · = true))
      ((points step mid hi).filter (p · = true)) := by
    refine Finset.disjoint_left.2 fun m hm hm' => ?_
    have hlt := ((mem_points hstep).1 (Finset.mem_filter.1 hm).1).2.2
    have hle := ((mem_points hstep).1 (Finset.mem_filter.1 hm').1).2.1
    omega
  rw [count, count, count, ← Finset.card_union_of_disjoint hdisjoint]
  congr 1
  ext m
  simp only [Finset.mem_union, Finset.mem_filter, mem_points hstep]
  constructor
  · rintro (⟨⟨hdvd, hle, hlt⟩, hp⟩ | ⟨⟨hdvd, hle, hlt⟩, hp⟩)
    · exact ⟨⟨hdvd, hle, by omega⟩, hp⟩
    · exact ⟨⟨hdvd, by omega, hlt⟩, hp⟩
  · rintro ⟨⟨hdvd, hle, hlt⟩, hp⟩
    rcases lt_or_ge m mid with hm | hm
    · exact .inl ⟨⟨hdvd, hle, hm⟩, hp⟩
    · exact .inr ⟨⟨hdvd, hm, hlt⟩, hp⟩

/-- The points with a property and those without it. -/
theorem count_add_count_not (p : ℤ → Bool) (step lo hi : ℤ) :
    count p step lo hi + count (fun m => !p m) step lo hi = (points step lo hi).card := by
  rw [← Finset.card_filter_add_card_filter_not (s := points step lo hi) (p · = true), count, count]
  simp only [Bool.not_eq_true', Bool.not_eq_true]

/-- A window of one point. -/
theorem count_succ (hstep : 0 < step) (p : ℤ → Bool) {lo hi : ℤ} (hlo : step ∣ lo)
    (hhi : lo + step ≤ hi) :
    count p step lo hi = (if p lo then 1 else 0) + count p step (lo + step) hi := by
  rw [← count_add_count hstep p (show lo ≤ lo + step by omega) hhi]
  congr 1
  have hone : points step lo (lo + step) = {lo} := by
    ext m
    rw [mem_points hstep, Finset.mem_singleton]
    constructor
    · rintro ⟨hdvd, hle, hlt⟩
      have hdiff := Int.eq_zero_of_dvd_of_nonneg_of_lt (by omega) (by omega) (Int.dvd_sub hdvd hlo)
      omega
    · rintro rfl
      exact ⟨hlo, le_rfl, by omega⟩
  rw [count, hone, Finset.filter_singleton]
  split <;> rfl

/-- Points counted one after the other. -/
theorem countP_range (hstep : 0 < step) (p : ℤ → Bool) {lo : ℤ} (hlo : step ∣ lo) (n : ℕ) :
    ((List.range n).map fun i : ℕ => lo + step * (i : ℤ)).countP p = count p step lo (lo + step * n) := by
  induction n generalizing lo with
  | zero => rw [count_of_le hstep p (by simp)]; rfl
  | succ n ih =>
      have hshift : ((List.range n).map Nat.succ).map (fun i : ℕ => lo + step * (i : ℤ)) =
          (List.range n).map fun i : ℕ => lo + step + step * (i : ℤ) := by
        rw [List.map_map]
        refine List.map_congr_left fun i _ => ?_
        change lo + step * ((i + 1 : ℕ) : ℤ) = _
        push_cast
        ring
      have hend : lo + step + step * (n : ℤ) = lo + step * ((n + 1 : ℕ) : ℤ) := by
        push_cast
        ring
      have hle : lo + step ≤ lo + step * ((n + 1 : ℕ) : ℤ) := by
        have := mul_nonneg hstep.le (Int.natCast_nonneg n)
        omega
      rw [List.range_succ_eq_map, List.map_cons, hshift, List.countP_cons,
        ih (Int.dvd_add hlo (dvd_refl step)), hend, count_succ hstep p hlo hle, add_comm]
      simp

/-! ### Missing points -/

/-- The missing points and those present make up the points of the window. -/
theorem missing_add_length (hstep : 0 < step) (h : Present step lo hi l) :
    missing step lo hi l + l.length = (points step lo hi).card := by
  have hpresent : (points step lo hi).filter (· ∈ l) = l.toFinset := by
    ext m
    rw [Finset.mem_filter, List.mem_toFinset, mem_points hstep]
    refine and_iff_right_of_imp fun hm => ?_
    exact ⟨h.dvd m hm, h.le m hm, h.lt m hm⟩
  have hcard := Finset.card_filter_add_card_filter_not (s := points step lo hi) (· ∈ l)
  rw [hpresent, List.toFinset_card_of_nodup (h.sorted.imp ne_of_lt)] at hcard
  rw [missing]
  omega

theorem missing_eq_zero_iff (hstep : 0 < step) :
    missing step lo hi l = 0 ↔ ∀ m, step ∣ m → lo ≤ m → m < hi → m ∈ l := by
  rw [missing, Finset.card_eq_zero, Finset.filter_eq_empty_iff]
  constructor
  · intro h m hm hle hlt
    exact not_not.1 (h ((mem_points hstep).2 ⟨hm, hle, hlt⟩))
  · intro h m hm
    obtain ⟨hm, hle, hlt⟩ := (mem_points hstep).1 hm
    exact not_not.2 (h m hm hle hlt)

/-! ### The distance from the first to the last -/

theorem le_getLast {first : ℤ} {more : List ℤ} (h : (first :: more).Pairwise (· ≤ ·)) :
    ∀ t ∈ first :: more, t ≤ more.getLastD first := by
  induction more generalizing first with
  | nil =>
      intro t ht
      exact (List.mem_singleton.1 ht).le
  | cons second more ih =>
      obtain ⟨hfirst, hmore⟩ := List.pairwise_cons.1 h
      intro t ht
      rw [List.getLastD_cons]
      rcases List.mem_cons.1 ht with rfl | ht
      · exact (hfirst second List.mem_cons_self).trans (ih hmore second List.mem_cons_self)
      · exact ih hmore t ht

theorem getLastD_mem (first : ℤ) (more : List ℤ) : more.getLastD first ∈ first :: more := by
  induction more generalizing first with
  | nil => exact List.mem_cons_self
  | cons second more ih =>
      rw [List.getLastD_cons]
      exact List.mem_cons_of_mem _ (ih second)

/-- Ascending points are those of the window from the first one to the end of the last one. -/
theorem present_span {first : ℤ} {more : List ℤ} (hstep : 0 < step)
    (hsorted : (first :: more).Pairwise (· < ·)) (hdvd : ∀ t ∈ first :: more, step ∣ t) :
    Present step first (more.getLastD first + step) (first :: more) where
  sorted := hsorted
  dvd := hdvd
  le t ht := by
    rcases List.mem_cons.1 ht with rfl | ht
    · exact le_rfl
    · exact (List.rel_of_pairwise_cons hsorted ht).le
  lt t ht := by
    have := le_getLast (hsorted.imp le_of_lt) t ht
    omega

/-- From the first point present to the end of the last one nothing is left out. -/
theorem Present.narrow {first : ℤ} {more : List ℤ} (hstep : 0 < step)
    (h : Present step lo hi (first :: more)) :
    Present step first (more.getLastD first + step) (first :: more) :=
  present_span hstep h.sorted h.dvd

theorem card_between (hstep : 0 < step) {a b : ℤ} (hab : a ≤ b) :
    ((points step (step * a) (step * b + step)).card : ℤ) = b + 1 - a := by
  have hend : step * b + step = step * (b + 1) := by ring
  rw [card_points hstep, hend, index_mul hstep, index_mul hstep]
  omega

/-- The distance from the first to the last point present counts all points of the window that are
missing just if the first and the last one of the window are present. -/
theorem missing_le_iff {first : ℤ} {more : List ℤ} (hstep : 0 < step)
    (h : Present step lo hi (first :: more)) :
    (missing step lo hi (first :: more) : ℤ) ≤
        max 0 ((more.getLastD first + step - first) / step - (first :: more).length) ↔
      first < lo + step ∧ hi ≤ more.getLastD first + step := by
  have hlast := getLastD_mem first more
  obtain ⟨a, rfl⟩ := h.dvd first List.mem_cons_self
  obtain ⟨b, hb⟩ := h.dvd _ hlast
  have hab : a ≤ b := by
    have := le_getLast (h.sorted.imp le_of_lt) _ List.mem_cons_self
    rw [hb] at this
    exact le_of_mul_le_mul_left this hstep
  have hnarrow := missing_add_length hstep (h.narrow hstep)
  have hwide := missing_add_length hstep h
  have hcard := card_between hstep hab
  rw [hb] at hnarrow ⊢
  have hlow : index step lo ≤ a := (index_le_iff hstep).2 (h.le _ List.mem_cons_self)
  have hhigh : b < index step hi := (lt_index_iff hstep).2 (hb ▸ h.lt _ hlast)
  rw [card_points hstep] at hwide
  have hfirst : step * a < lo + step ↔ a ≤ index step lo := by
    have hpred := lt_index_iff hstep (t := lo) (k := a - 1)
    rw [mul_sub, mul_one] at hpred
    omega
  have hend : hi ≤ step * b + step ↔ index step hi ≤ b + 1 := by
    rw [index_le_iff hstep, mul_add, mul_one]
  have hspan : (step * b + step - step * a) / step = b + 1 - a := by
    have hmul : step * b + step - step * a = step * (b + 1 - a) := by ring
    rw [hmul, Int.mul_ediv_cancel_left _ hstep.ne']
  rw [hfirst, hend, hspan]
  omega

/-! ### Gap by gap -/

/-- How many points are missing between each point present and the next one. -/
noncomputable def gapSizes (step : ℤ) (l : List ℤ) : List ℕ :=
  (l.zip l.tail).map fun p => (points step (p.1 + step) p.2).card

/-- The points between two points. -/
theorem card_points_between (hstep : 0 < step) {a b : ℤ} (ha : step ∣ a) (hb : step ∣ b)
    (hab : a < b) : ((points step (a + step) b).card : ℤ) = (b - a) / step - 1 := by
  obtain ⟨i, rfl⟩ := ha
  obtain ⟨j, rfl⟩ := hb
  have hij : i < j := lt_of_mul_lt_mul_left hab hstep.le
  have hnext : step * i + step = step * (i + 1) := by ring
  rw [card_points hstep, hnext, index_mul hstep, index_mul hstep, ← mul_sub,
    Int.mul_ediv_cancel_left _ hstep.ne']
  omega

/-- The sizes of the gaps are those of the distances. -/
theorem map_gapSizes (hstep : 0 < step) (hsorted : l.Pairwise (· < ·)) (hdvd : ∀ t ∈ l, step ∣ t) :
    (gapSizes step l).map ((↑) : ℕ → ℤ) = (l.zip l.tail).map fun p => (p.2 - p.1) / step - 1 := by
  induction l with
  | nil => rfl
  | cons first more ih =>
      cases more with
      | nil => rfl
      | cons second more =>
          have hlt := List.rel_of_pairwise_cons hsorted List.mem_cons_self
          have hone := card_points_between hstep (hdvd first List.mem_cons_self)
            (hdvd second (List.mem_cons_of_mem _ List.mem_cons_self)) hlt
          have hrest := ih hsorted.of_cons fun t ht => hdvd t (List.mem_cons_of_mem _ ht)
          simp only [gapSizes, List.tail_cons, List.zip_cons_cons, List.map_cons, hone] at hrest ⊢
          rw [hrest]

/-- The distance from the first point to the last one, less the points present, is what the gaps
miss. -/
theorem span_sub_length {first : ℤ} {more : List ℤ} (hstep : 0 < step)
    (hsorted : (first :: more).Pairwise (· < ·)) (hdvd : ∀ t ∈ first :: more, step ∣ t) :
    (more.getLastD first + step - first) / step - (first :: more).length =
      ((gapSizes step (first :: more)).sum : ℤ) := by
  have hsum : ((gapSizes step (first :: more)).sum : ℤ) =
      (((first :: more).zip more).map fun p => (p.2 - p.1) / step - 1).sum := by
    rw [Nat.cast_list_sum, map_gapSizes hstep hsorted hdvd]
    rfl
  rw [hsum]
  clear hsum
  induction more generalizing first with
  | nil =>
      have hspan : first + step - first = step * 1 := by ring
      rw [List.getLastD_nil, hspan, Int.mul_ediv_cancel_left _ hstep.ne']
      rfl
  | cons second more ih =>
      have hrest := ih hsorted.of_cons fun t ht => hdvd t (List.mem_cons_of_mem _ ht)
      obtain ⟨i, hi⟩ := hdvd first List.mem_cons_self
      obtain ⟨j, hj⟩ := hdvd second (List.mem_cons_of_mem _ List.mem_cons_self)
      have hsplit : (more.getLastD second + step - first) / step =
          (more.getLastD second + step - second) / step + (second - first) / step := by
        have hfar : second - first = step * (j - i) := by rw [hi, hj]; ring
        have hsum : more.getLastD second + step - first =
            more.getLastD second + step - second + step * (j - i) := by rw [← hfar]; ring
        rw [hsum, Int.add_mul_ediv_left _ _ hstep.ne', hfar, Int.mul_ediv_cancel_left _ hstep.ne']
      rw [List.getLastD_cons, List.zip_cons_cons, List.map_cons, List.sum_cons, ← hrest, hsplit,
        List.length_cons]
      push_cast
      ring

/-- From the first point present to the last one, the points that are missing are those of the gaps. -/
theorem missing_span {first : ℤ} {more : List ℤ} (hstep : 0 < step)
    (hsorted : (first :: more).Pairwise (· < ·)) (hdvd : ∀ t ∈ first :: more, step ∣ t) :
    missing step first (more.getLastD first + step) (first :: more) =
      (gapSizes step (first :: more)).sum := by
  have hcount := missing_add_length hstep (present_span hstep hsorted hdvd)
  have hspan := span_sub_length hstep hsorted hdvd
  have hle := le_getLast (hsorted.imp le_of_lt) first List.mem_cons_self
  obtain ⟨a, ha⟩ := hdvd first List.mem_cons_self
  obtain ⟨b, hb⟩ := hdvd _ (getLastD_mem first more)
  rw [hb, ha] at hcount hspan hle
  have hab : a ≤ b := le_of_mul_le_mul_left hle hstep
  have hcard := card_between hstep hab
  have hlength : step * b + step - step * a = step * (b + 1 - a) := by ring
  rw [hlength, Int.mul_ediv_cancel_left _ hstep.ne'] at hspan
  rw [hb, ha]
  omega

end GridWindow
