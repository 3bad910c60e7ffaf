/-
**Sorting by a key.**

A list is sorted by a key, elements with the same key keeping their order.  Lists whose keys come one
after the other can be sorted each on its own, and a sorted list is cut by its keys into sorted
pieces.  Nothing in this module refers to particular elements.

Main definitions:

* `StableSort.sortBy` — the sorted list; `StableSort.within` — the elements with a key in a window.

Main results:

* `StableSort.sortBy_append` — lists that come one after the other;
* `StableSort.within_split` — a window in two parts.
-/

import Mathlib.Data.List.Sort
import Mathlib.Order.Defs.LinearOrder

set_option relaxedAutoImplicit false
set_option autoImplicit false

namespace StableSort

variable {α κ : Type*} [LinearOrder κ] (key : α → κ)

/-- The list in the order of its keys, elements with the same key in the order they have. -/
def sortBy (l : List α) : List α := l.insertionSort fun a b => key a ≤ key b

/-- The elements whose keys are in a half-open window. -/
def within (lo hi : κ) (l : List α) : List α := l.filter fun a => lo ≤ key a ∧ key a < hi

variable {key}

theorem sortBy_perm (l : List α) : (sortBy key l).Perm l := List.perm_insertionSort _ l

@[simp] theorem mem_sortBy {a : α} {l : List α} : a ∈ sortBy key l ↔ a ∈ l :=
  (sortBy_perm l).mem_iff

theorem pairwise_sortBy (l : List α) : (sortBy key l).Pairwise (key · ≤ key ·) := by
  have : Std.Total fun a b : α => key a ≤ key b := ⟨fun a b => le_total (key a) (key b)⟩
  have : IsTrans α fun a b : α => key a ≤ key b := ⟨fun _ _ _ => le_trans⟩
  exact List.pairwise_insertionSort _ l

/-- Elements with different keys are in strict order. -/
theorem pairwise_lt_sortBy {l : List α} (h : l.Pairwise (key · ≠ key ·)) :
    (sortBy key l).Pairwise (key · < key ·) := by
  have hne : (sortBy key l).Pairwise (key · ≠ key ·) :=
    (sortBy_perm l).symm.pairwise h fun hab hba => hab hba.symm
  exact (pairwise_sortBy l).imp₂ (fun _ _ hle hne => lt_of_le_of_ne hle hne) hne

/-- An element is inserted before those with its key. -/
theorem filter_orderedInsert (a : α) {l : List α} (hl : l.Pairwise (key · ≤ key ·)) (k : κ) :
    (l.orderedInsert (fun a b => key a ≤ key b) a).filter (fun b => key b = k) =
      (a :: l).filter fun b => key b = k := by
  induction l with
  | nil => rfl
  | cons b l ih =>
      rw [List.pairwise_cons] at hl
      rw [List.orderedInsert_cons]
      split
      · rfl
      · rename_i hba
        have ih := ih hl.2
        by_cases ha : key a = k
        · -- what comes before has a smaller key
          have hb : key b ≠ k := fun hb => hba (ha.trans hb.symm).le
          simp only [List.filter_cons, ih, ha, hb, decide_true, decide_false, if_true]
          rfl
        · simp only [List.filter_cons, ih, ha, decide_false]
          rfl

/-- Elements with one key keep their order. -/
theorem filter_sortBy (l : List α) (k : κ) :
    (sortBy key l).filter (fun b => key b = k) = l.filter fun b => key b = k := by
  induction l with
  | nil => rfl
  | cons a l ih =>
      have hcons : sortBy key (a :: l) =
          (sortBy key l).orderedInsert (fun a b => key a ≤ key b) a := rfl
      rw [hcons, filter_orderedInsert a (pairwise_sortBy l), List.filter_cons, List.filter_cons, ih]

/-- Lists in strict order with the same elements are the same. -/
theorem eq_of_mem_iff {l l' : List α} (hl : l.Pairwise (key · < key ·))
    (hl' : l'.Pairwise (key · < key ·)) (h : ∀ a, a ∈ l ↔ a ∈ l') : l = l' := by
  have hperm : l.Perm l' := by
    refine (List.perm_ext_iff_of_nodup ?_ ?_).2 h
    · exact hl.imp fun hlt heq => hlt.ne (congrArg key heq)
    · exact hl'.imp fun hlt heq => hlt.ne (congrArg key heq)
  exact hperm.eq_of_pairwise (fun a b _ _ hab hba => absurd hab hba.asymm) hl hl'

/-- An element that comes before a list is inserted before it. -/
theorem orderedInsert_append {a : α} (l : List α) {l' : List α} (h : ∀ b ∈ l', key a ≤ key b) :
    (l ++ l').orderedInsert (fun a b => key a ≤ key b) a =
      l.orderedInsert (fun a b => key a ≤ key b) a ++ l' := by
  induction l with
  | nil =>
      cases l' with
      | nil => rfl
      | cons b l' => exact List.orderedInsert_cons_of_le _ _ (h b List.mem_cons_self)
  | cons b l ih =>
      rw [List.cons_append, List.orderedInsert_cons, List.orderedInsert_cons, ih]
      split <;> rfl

theorem sortBy_append (l : List α) {l' : List α} (h : ∀ a ∈ l, ∀ b ∈ l', key a ≤ key b) :
    sortBy key (l ++ l') = sortBy key l ++ sortBy key l' := by
  induction l with
  | nil => rfl
  | cons a l ih =>
      have hcons : sortBy key (a :: (l ++ l')) =
          (sortBy key (l ++ l')).orderedInsert (fun a b => key a ≤ key b) a := rfl
      rw [List.cons_append, hcons, ih fun b hb => h b (List.mem_cons_of_mem _ hb),
        orderedInsert_append]
      · rfl
      · exact fun b hb => h a List.mem_cons_self b (mem_sortBy.1 hb)

theorem mem_within {lo hi : κ} {l : List α} {a : α} :
    a ∈ within key lo hi l ↔ a ∈ l ∧ lo ≤ key a ∧ key a < hi := by
  rw [within, List.mem_filter, decide_eq_true_eq]

theorem within_cons (lo hi : κ) (a : α) (l : List α) :
    within key lo hi (a :: l) =
      if lo ≤ key a ∧ key a < hi then a :: within key lo hi l else within key lo hi l := by
  simp only [within, List.filter_cons, decide_eq_true_eq]

/-- A sorted list is cut at any key. -/
theorem within_split {lo mid hi : κ} {l : List α} (hl : l.Pairwise (key · ≤ key ·))
    (hlo : lo ≤ mid) (hhi : mid ≤ hi) :
    within key lo hi l = within key lo mid l ++ within key mid hi l := by
  induction l with
  | nil => rfl
  | cons a l ih =>
      rw [List.pairwise_cons] at hl
      have ih := ih hl.2
      by_cases hmid : key a < mid
      · have hnot : ¬ (mid ≤ key a ∧ key a < hi) := fun h => not_lt.2 h.1 hmid
        by_cases ha : lo ≤ key a
        · rw [within_cons, if_pos ⟨ha, hmid.trans_le hhi⟩, within_cons, if_pos ⟨ha, hmid⟩,
            within_cons, if_neg hnot, ih]
          rfl
        · rw [within_cons, if_neg fun h => ha h.1, within_cons, if_neg fun h => ha h.1,
            within_cons, if_neg hnot, ih]
      · -- from here on no key lies in the first part
        have hfirst : within key lo mid (a :: l) = [] := by
          refine List.filter_eq_nil_iff.2 fun b hb h => ?_
          have hb' : key a ≤ key b := by
            rcases List.mem_cons.1 hb with rfl | hb
            · exact le_rfl
            · exact hl.1 b hb
          exact absurd ((of_decide_eq_true h).2.trans_le (not_lt.1 hmid)) (not_lt.2 hb')
        rw [hfirst, List.nil_append]
        refine List.filter_congr fun b hb => ?_
        have hb' : mid ≤ key b := by
          rcases List.mem_cons.1 hb with rfl | hb
          · exact not_lt.1 hmid
          · exact (not_lt.1 hmid).trans (hl.1 b hb)
        simp only [hb', hlo.trans hb', true_and]

/-- Relations that agree on a list sort it alike. -/
theorem insertionSort_congr {r s : α → α → Prop} [DecidableRel r] [DecidableRel s] {l : List α}
    (h : ∀ a ∈ l, ∀ b ∈ l, r a b ↔ s a b) : l.insertionSort r = l.insertionSort s := by
  have hinsert : ∀ (a : α) (l : List α), (∀ b ∈ l, r a b ↔ s a b) →
      l.orderedInsert r a = l.orderedInsert s a := by
    intro a l
    induction l with
    | nil => exact fun _ => rfl
    | cons b l ih =>
        intro hl
        rw [List.orderedInsert_cons, List.orderedInsert_cons,
          ih fun c hc => hl c (List.mem_cons_of_mem _ hc)]
        exact if_congr (hl b List.mem_cons_self) rfl rfl
  induction l with
  | nil => rfl
  | cons a l ih =>
      have htail : l.insertionSort r = l.insertionSort s :=
        ih fun b hb c hc => h b (List.mem_cons_of_mem _ hb) c (List.mem_cons_of_mem _ hc)
      rw [List.insertionSort_cons, List.insertionSort_cons, htail]
      refine hinsert a _ fun b hb => h a List.mem_cons_self b (List.mem_cons_of_mem _ ?_)
      exact (List.perm_insertionSort s l).mem_iff.1 hb

end StableSort
