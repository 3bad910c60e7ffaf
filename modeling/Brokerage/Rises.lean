/-
**Splitting a list where a key rises.**

A stream is cut into groups: an element begins a new group if its key is larger than the key the
current group began with, and otherwise joins the group.  As long as the keys do not decrease, the
groups are those of equal keys.  In general a group begins exactly with each element whose key is
larger than all before, so that two keys cut a list in the same way if and only if they are larger
than all before at the same elements.  Nothing in this module refers to a particular stream.

Main definitions:

* `Rises.splitFrom`, `Rises.split` — the groups;
* `Rises.IsSplit` — groups of equal keys, with larger and larger keys.

Main results:

* `Rises.flatten_split` — the groups make up the list;
* `Rises.split_flatten` — groups of equal keys are the groups of the list they make up;
* `Rises.isSplit_split` — the groups of a list whose keys do not decrease;
* `Rises.flatMap_filter` — putting together the elements of each key;
* `Rises.begins_split`, `Rises.exists_group_split` — which elements begin a group;
* `Rises.split_eq_split_iff` — when two keys cut a list in the same way.
-/

import Mathlib

set_option relaxedAutoImplicit false
set_option autoImplicit false

namespace Rises

variable {α κ : Type*} [LinearOrder κ] (key : α → κ)

/-- The groups of the elements to come, where the current group began with the key `w` and has the
elements `held`. -/
def splitFrom (w : κ) (held : List α) : List α → List (List α)
  | [] => [held]
  | t :: ts =>
      if w < key t then held :: splitFrom (key t) [t] ts else splitFrom w (held ++ [t]) ts

/-- The groups of a list. -/
def split : List α → List (List α)
  | [] => []
  | t :: ts => splitFrom key (key t) [t] ts

/-- Groups that are not empty, each of one key, with larger and larger keys. -/
structure IsSplit (groups : List (List α)) : Prop where
  ne_nil : ∀ g ∈ groups, g ≠ []
  constant : ∀ g ∈ groups, ∀ s ∈ g, ∀ t ∈ g, key s = key t
  increasing : groups.Pairwise fun g h => ∀ s ∈ g, ∀ t ∈ h, key s < key t

variable {key}

/-! ### The groups make up the list -/

variable (key) in
theorem flatten_splitFrom (w : κ) (held ts : List α) :
    (splitFrom key w held ts).flatten = held ++ ts := by
  induction ts generalizing w held with
  | nil => simp [splitFrom]
  | cons t ts ih =>
      rw [splitFrom]
      split
      · simp [ih]
      · simp [ih]

variable (key) in
theorem flatten_split (ts : List α) : (split key ts).flatten = ts := by
  cases ts with
  | nil => rfl
  | cons t ts => exact flatten_splitFrom key (key t) [t] ts

variable (key) in
/-- The first group begins with the elements that are held. -/
theorem splitFrom_eq_cons (w : κ) (held ts : List α) :
    ∃ more groups, splitFrom key w held ts = (held ++ more) :: groups := by
  induction ts generalizing w held with
  | nil => exact ⟨[], [], by simp [splitFrom]⟩
  | cons t ts ih =>
      rw [splitFrom]
      split
      · exact ⟨[], _, by rw [List.append_nil]⟩
      · obtain ⟨more, groups, heq⟩ := ih w (held ++ [t])
        exact ⟨t :: more, groups, by rw [heq, List.append_assoc, List.singleton_append]⟩

/-! ### Groups of equal keys -/

theorem IsSplit.tail {g : List α} {groups : List (List α)} (h : IsSplit key (g :: groups)) :
    IsSplit key groups where
  ne_nil g' hg' := h.ne_nil g' (List.mem_cons_of_mem _ hg')
  constant g' hg' := h.constant g' (List.mem_cons_of_mem _ hg')
  increasing := (List.pairwise_cons.1 h.increasing).2

/-- Elements whose keys are not larger join the group. -/
theorem splitFrom_append {w : κ} {more : List α} (h : ∀ t ∈ more, key t ≤ w) (held rest : List α) :
    splitFrom key w held (more ++ rest) = splitFrom key w (held ++ more) rest := by
  induction more generalizing held with
  | nil => rw [List.nil_append, List.append_nil]
  | cons t more ih =>
      rw [List.cons_append, splitFrom, if_neg (not_lt.2 (h t List.mem_cons_self)),
        ih (fun u hu => h u (List.mem_cons_of_mem _ hu)), List.append_assoc, List.singleton_append]

/-- Groups of larger and larger keys are split off one by one. -/
theorem splitFrom_flatten {groups : List (List α)} (h : IsSplit key groups) {w : κ}
    (hw : ∀ g ∈ groups, ∀ t ∈ g, w < key t) (held : List α) :
    splitFrom key w held groups.flatten = held :: groups := by
  induction groups generalizing w held with
  | nil => rfl
  | cons g groups ih =>
      obtain ⟨t, more, rfl⟩ := List.exists_cons_of_ne_nil (h.ne_nil g List.mem_cons_self)
      have hlater := (List.pairwise_cons.1 h.increasing).1
      have hsame : ∀ u ∈ more, key u ≤ key t := fun u hu =>
        (h.constant _ List.mem_cons_self u (List.mem_cons_of_mem _ hu) t List.mem_cons_self).le
      rw [List.flatten_cons, List.cons_append, splitFrom,
        if_pos (hw _ List.mem_cons_self t List.mem_cons_self), splitFrom_append hsame,
        List.singleton_append,
        ih h.tail fun g' hg' u hu => hlater g' hg' t List.mem_cons_self u hu]

/-- Groups of equal keys are the groups of the list they make up. -/
theorem split_flatten {groups : List (List α)} (h : IsSplit key groups) :
    split key groups.flatten = groups := by
  cases groups with
  | nil => rfl
  | cons g groups =>
      obtain ⟨t, more, rfl⟩ := List.exists_cons_of_ne_nil (h.ne_nil g List.mem_cons_self)
      have hlater := (List.pairwise_cons.1 h.increasing).1
      have hsame : ∀ u ∈ more, key u ≤ key t := fun u hu =>
        (h.constant _ List.mem_cons_self u (List.mem_cons_of_mem _ hu) t List.mem_cons_self).le
      rw [List.flatten_cons, List.cons_append, split, splitFrom_append hsame, List.singleton_append,
        splitFrom_flatten h.tail fun g' hg' u hu => hlater g' hg' t List.mem_cons_self u hu]

/-- The groups from a group of one key on, if the keys do not decrease. -/
theorem isSplit_splitFrom {w : κ} {held ts : List α} (hne : held ≠ [])
    (hheld : ∀ s ∈ held, key s = w) (hw : ∀ t ∈ ts, w ≤ key t)
    (hsorted : ts.Pairwise fun s t => key s ≤ key t) : IsSplit key (splitFrom key w held ts) := by
  induction ts generalizing w held with
  | nil =>
      refine ⟨fun g hg => ?_, fun g hg => ?_, List.pairwise_singleton _ _⟩
      · rwa [List.mem_singleton.1 hg]
      · rw [List.mem_singleton.1 hg]
        exact fun s hs t ht => (hheld s hs).trans (hheld t ht).symm
  | cons t ts ih =>
      obtain ⟨htts, hrest⟩ := List.pairwise_cons.1 hsorted
      rw [splitFrom]
      split
      · rename_i hlt
        have hsplit : IsSplit key (splitFrom key (key t) [t] ts) :=
          ih (List.cons_ne_nil t []) (fun s hs => by rw [List.mem_singleton.1 hs]) htts hrest
        refine ⟨fun g hg => ?_, fun g hg => ?_, List.pairwise_cons.2 ⟨?_, hsplit.increasing⟩⟩
        · rcases List.mem_cons.1 hg with rfl | hg
          · exact hne
          · exact hsplit.ne_nil g hg
        · rcases List.mem_cons.1 hg with rfl | hg
          · exact fun s hs u hu => (hheld s hs).trans (hheld u hu).symm
          · exact hsplit.constant g hg
        · intro g hg s hs u hu
          have hmem : u ∈ (splitFrom key (key t) [t] ts).flatten := List.mem_flatten.2 ⟨g, hg, hu⟩
          rw [flatten_splitFrom, List.singleton_append] at hmem
          rw [hheld s hs]
          rcases List.mem_cons.1 hmem with rfl | hmem
          · exact hlt
          · exact lt_of_lt_of_le hlt (htts u hmem)
      · rename_i hge
        have hkey : key t = w := le_antisymm (not_lt.1 hge) (hw t List.mem_cons_self)
        refine ih (by simp) (fun s hs => ?_) (fun u hu => hw u (List.mem_cons_of_mem _ hu)) hrest
        rcases List.mem_append.1 hs with hs | hs
        · exact hheld s hs
        · rw [List.mem_singleton.1 hs, hkey]

/-- The groups of a list whose keys do not decrease. -/
theorem isSplit_split {ts : List α} (hsorted : ts.Pairwise fun s t => key s ≤ key t) :
    IsSplit key (split key ts) := by
  cases ts with
  | nil => exact ⟨fun g hg => (by cases hg), fun g hg => (by cases hg), List.Pairwise.nil⟩
  | cons t ts =>
      obtain ⟨htts, hrest⟩ := List.pairwise_cons.1 hsorted
      exact isSplit_splitFrom (List.cons_ne_nil t [])
        (fun s hs => by rw [List.mem_singleton.1 hs]) htts hrest

/-- A group of equal keys has all elements of its key. -/
theorem IsSplit.filter_flatten {groups : List (List α)} (h : IsSplit key groups) {g : List α}
    (hg : g ∈ groups) {t : α} (ht : t ∈ g) :
    groups.flatten.filter (fun s => key s = key t) = g := by
  induction groups with
  | nil => cases hg
  | cons g' groups ih =>
      have hlater := (List.pairwise_cons.1 h.increasing).1
      rw [List.flatten_cons, List.filter_append]
      rcases List.mem_cons.1 hg with rfl | hg
      · have hsame : g.filter (fun s => key s = key t) = g :=
          List.filter_eq_self.2 fun s hs =>
            decide_eq_true (h.constant g List.mem_cons_self s hs t ht)
        have hnone : groups.flatten.filter (fun s => key s = key t) = [] := by
          refine List.filter_eq_nil_iff.2 fun s hs => ?_
          obtain ⟨g', hg', hsg'⟩ := List.mem_flatten.1 hs
          exact fun heq => (hlater g' hg' t ht s hsg').ne' (of_decide_eq_true heq)
        rw [hsame, hnone, List.append_nil]
      · have hnone : g'.filter (fun s => key s = key t) = [] := by
          refine List.filter_eq_nil_iff.2 fun s hs => ?_
          exact fun heq => (hlater g hg s hs t ht).ne (of_decide_eq_true heq)
        rw [hnone, List.nil_append, ih h.tail hg]

/-- The elements of the smallest key come first. -/
theorem filter_append_filter {l : List α} (hl : l.Pairwise fun s t => key s ≤ key t) {k : κ}
    (hk : ∀ t ∈ l, k ≤ key t) :
    (l.filter fun t => key t = k) ++ (l.filter fun t => key t ≠ k) = l := by
  induction l with
  | nil => rfl
  | cons t l ih =>
      obtain ⟨htl, hl⟩ := List.pairwise_cons.1 hl
      have hrest := ih hl fun u hu => hk u (List.mem_cons_of_mem _ hu)
      by_cases ht : key t = k
      · simpa [ht] using hrest
      · have hlt : k < key t := lt_of_le_of_ne (hk t List.mem_cons_self) (Ne.symm ht)
        have hnone : l.filter (fun u => key u = k) = [] :=
          List.filter_eq_nil_iff.2 fun u hu heq =>
            (hlt.trans_le (htl u hu)).ne' (of_decide_eq_true heq)
        rw [hnone, List.nil_append] at hrest
        rw [List.filter_cons_of_neg (by simpa using ht), List.filter_cons_of_pos (by simpa using ht),
          hnone, List.nil_append, hrest]

/-- The elements of each key, put together in the order of the keys, are a list whose keys do not
decrease. -/
theorem flatMap_filter {ks : List κ} (hks : ks.Pairwise (· < ·)) {l : List α}
    (hl : l.Pairwise fun s t => key s ≤ key t) (hmem : ∀ t ∈ l, key t ∈ ks) :
    (ks.flatMap fun k => l.filter fun t => key t = k) = l := by
  induction ks generalizing l with
  | nil =>
      cases l with
      | nil => rfl
      | cons t l => cases hmem t List.mem_cons_self
  | cons k ks ih =>
      obtain ⟨hlater, hks⟩ := List.pairwise_cons.1 hks
      have hfirst : ∀ t ∈ l, k ≤ key t := fun t ht => by
        rcases List.mem_cons.1 (hmem t ht) with heq | hmem
        · exact heq.ge
        · exact (hlater _ hmem).le
      -- the keys after the first one do not see its elements
      have hrest := ih hks (hl.filter fun t => key t ≠ k) fun t ht => by
        obtain ⟨ht, hne⟩ := List.mem_filter.1 ht
        exact (List.mem_cons.1 (hmem t ht)).resolve_left (of_decide_eq_true hne)
      have hsame : (ks.flatMap fun j => (l.filter fun t => key t ≠ k).filter fun t => key t = j) =
          ks.flatMap fun j => l.filter fun t => key t = j := by
        refine List.flatMap_congr fun j hj => ?_
        rw [List.filter_filter]
        refine List.filter_congr fun t _ => ?_
        by_cases hjt : key t = j
        · simp [hjt, (hlater j hj).ne']
        · simp [hjt]
      rw [hsame] at hrest
      rw [List.flatMap_cons, hrest]
      exact filter_append_filter hl hfirst

/-! ### Where groups begin -/

variable (key) in
/-- The key of `t` is larger than the keys of `pre`. -/
def Record (pre : List α) (t : α) : Prop := ∀ s ∈ pre, key s < key t

theorem record_cons {s t : α} {pre : List α} :
    Record key (s :: pre) t ↔ key s < key t ∧ Record key pre t := List.forall_mem_cons

/-- An element that is larger than all before begins a group. -/
theorem exists_group_splitFrom {w : κ} {pre : List α} {t : α} (hw : w < key t)
    (ht : Record key pre t) (held post : List α) :
    ∃ more, t :: more ∈ splitFrom key w held (pre ++ t :: post) := by
  induction pre generalizing w held with
  | nil =>
      rw [List.nil_append, splitFrom, if_pos hw]
      obtain ⟨more, groups, heq⟩ := splitFrom_eq_cons key (key t) [t] post
      exact ⟨more, List.mem_cons_of_mem _ (by rw [heq]; exact List.mem_cons_self)⟩
  | cons s pre ih =>
      obtain ⟨hst, ht⟩ := record_cons.1 ht
      rw [List.cons_append, splitFrom]
      split
      · obtain ⟨more, hmem⟩ := ih hst ht [s]
        exact ⟨more, List.mem_cons_of_mem _ hmem⟩
      · exact ih hw ht (held ++ [s])

/-- What is not in the first group is in one that begins with an element larger than all before. -/
theorem begins_splitFrom {w : κ} {held ts g : List α} (hg : g ∈ splitFrom key w held ts) :
    (∃ more, g = held ++ more) ∨
      ∃ pre t post more, ts = pre ++ t :: post ∧ g = t :: more ∧ w < key t ∧ Record key pre t := by
  induction ts generalizing w held with
  | nil => exact Or.inl ⟨[], by rw [List.append_nil]; exact List.mem_singleton.1 hg⟩
  | cons t ts ih =>
      rw [splitFrom] at hg
      split at hg
      · rename_i hlt
        rcases List.mem_cons.1 hg with rfl | hg
        · exact Or.inl ⟨[], (List.append_nil g).symm⟩
        · rcases ih hg with ⟨more, rfl⟩ | ⟨pre, u, post, more, rfl, rfl, hu, hrec⟩
          · exact Or.inr ⟨[], t, ts, more, rfl, rfl, hlt, fun s hs => by cases hs⟩
          · exact Or.inr ⟨t :: pre, u, post, more, rfl, rfl, hlt.trans hu, record_cons.2 ⟨hu, hrec⟩⟩
      · rename_i hge
        rcases ih hg with ⟨more, rfl⟩ | ⟨pre, u, post, more, rfl, rfl, hu, hrec⟩
        · exact Or.inl ⟨t :: more, by rw [List.append_assoc, List.singleton_append]⟩
        · exact Or.inr ⟨t :: pre, u, post, more, rfl, rfl, hu,
            record_cons.2 ⟨lt_of_le_of_lt (not_lt.1 hge) hu, hrec⟩⟩

/-- The groups begin with the elements that are larger than all before. -/
theorem exists_group_split {pre : List α} {t : α} (ht : Record key pre t) (post : List α) :
    ∃ more, t :: more ∈ split key (pre ++ t :: post) := by
  cases pre with
  | nil =>
      obtain ⟨more, groups, heq⟩ := splitFrom_eq_cons key (key t) [t] post
      exact ⟨more, by rw [List.nil_append, split, heq]; exact List.mem_cons_self⟩
  | cons s pre =>
      obtain ⟨hst, ht⟩ := record_cons.1 ht
      rw [List.cons_append, split]
      exact exists_group_splitFrom hst ht [s] post

theorem begins_split {ts g : List α} (hg : g ∈ split key ts) :
    ∃ pre t post more, ts = pre ++ t :: post ∧ g = t :: more ∧ Record key pre t := by
  cases ts with
  | nil => cases hg
  | cons s ts =>
      rw [split] at hg
      rcases begins_splitFrom hg with ⟨more, rfl⟩ | ⟨pre, t, post, more, rfl, rfl, hst, ht⟩
      · exact ⟨[], s, ts, more, rfl, rfl, fun u hu => by cases hu⟩
      · exact ⟨s :: pre, t, post, more, rfl, rfl, record_cons.2 ⟨hst, ht⟩⟩

/-! ### Two keys -/

variable {key' : α → κ}

/-- Two keys cut the elements to come in the same way, if and only if the same ones are larger than
all before. -/
theorem splitFrom_eq_splitFrom_iff (w w' : κ) (held ts : List α) :
    splitFrom key w held ts = splitFrom key' w' held ts ↔
      ∀ pre t post, ts = pre ++ t :: post →
        (w < key t ∧ Record key pre t ↔ w' < key' t ∧ Record key' pre t) := by
  -- the element at the head begins a group for one key and joins it for the other
  have hdiffer : ∀ (k k' : α → κ) (v v' : κ) (held : List α) (t : α) (ts : List α), v < k t →
      ¬ v' < k' t → splitFrom k v held (t :: ts) ≠ splitFrom k' v' held (t :: ts) := by
    intro k k' v v' held t ts hlt hge heq
    rw [splitFrom, if_pos hlt, splitFrom, if_neg hge] at heq
    obtain ⟨more, groups, hmore⟩ := splitFrom_eq_cons k' v' (held ++ [t]) ts
    rw [hmore, List.append_assoc] at heq
    have hlen := congrArg List.length (List.cons.inj heq).1
    simp at hlen
  induction ts generalizing w w' held with
  | nil =>
      refine ⟨fun _ pre t post heq => ?_, fun _ => rfl⟩
      exact absurd heq.symm (by simp)
  | cons t ts ih =>
      -- what the condition says about the elements behind the first one
      have hrest : (∀ pre u post, t :: ts = pre ++ u :: post →
          (w < key u ∧ Record key pre u ↔ w' < key' u ∧ Record key' pre u)) ↔
          (w < key t ↔ w' < key' t) ∧ ∀ pre u post, ts = pre ++ u :: post →
            (w < key u ∧ key t < key u ∧ Record key pre u ↔
              w' < key' u ∧ key' t < key' u ∧ Record key' pre u) := by
        constructor
        · intro h
          refine ⟨by simpa [Record] using h [] t ts rfl, fun pre u post heq => ?_⟩
          rw [← record_cons, ← record_cons]
          exact h (t :: pre) u post (by rw [heq, List.cons_append])
        · rintro ⟨hhead, htail⟩ pre u post heq
          cases pre with
          | nil =>
              obtain ⟨rfl, -⟩ := List.cons.inj heq
              simpa [Record] using hhead
          | cons s pre =>
              obtain ⟨rfl, htl⟩ := List.cons.inj heq
              rw [record_cons, record_cons]
              exact htail pre u post htl
      rw [hrest]
      by_cases hlt : w < key t <;> by_cases hlt' : w' < key' t
      · have hstep : splitFrom key w held (t :: ts) = splitFrom key' w' held (t :: ts) ↔
            splitFrom key (key t) [t] ts = splitFrom key' (key' t) [t] ts := by
          rw [splitFrom, if_pos hlt, splitFrom, if_pos hlt', List.cons.injEq, and_iff_right rfl]
        refine (hstep.trans (ih (key t) (key' t) [t])).trans
          (Iff.trans ?_ (and_iff_right (iff_of_true hlt hlt')).symm)
        refine forall₄_congr fun pre u post _ => ?_
        have hw : w < key u ∧ key t < key u ∧ Record key pre u ↔ key t < key u ∧ Record key pre u :=
          and_iff_right_of_imp fun h => hlt.trans h.1
        have hw' : w' < key' u ∧ key' t < key' u ∧ Record key' pre u ↔
            key' t < key' u ∧ Record key' pre u :=
          and_iff_right_of_imp fun h => hlt'.trans h.1
        rw [hw, hw']
      · exact iff_of_false (hdiffer _ _ _ _ held t ts hlt hlt') fun h => hlt' (h.1.1 hlt)
      · exact iff_of_false (hdiffer _ _ _ _ held t ts hlt' hlt).symm fun h => hlt (h.1.2 hlt')
      · have hstep : splitFrom key w held (t :: ts) = splitFrom key' w' held (t :: ts) ↔
            splitFrom key w (held ++ [t]) ts = splitFrom key' w' (held ++ [t]) ts := by
          rw [splitFrom, if_neg hlt, splitFrom, if_neg hlt']
        refine (hstep.trans (ih w w' (held ++ [t]))).trans
          (Iff.trans ?_ (and_iff_right (iff_of_false hlt hlt')).symm)
        refine forall₄_congr fun pre u post _ => ?_
        have hw : w < key u ∧ key t < key u ∧ Record key pre u ↔ w < key u ∧ Record key pre u :=
          and_congr_right fun h => and_iff_right (lt_of_le_of_lt (not_lt.1 hlt) h)
        have hw' : w' < key' u ∧ key' t < key' u ∧ Record key' pre u ↔
            w' < key' u ∧ Record key' pre u :=
          and_congr_right fun h => and_iff_right (lt_of_le_of_lt (not_lt.1 hlt') h)
        rw [hw, hw']

/-- Two keys cut a list in the same way, if and only if the same elements are larger than all
before. -/
theorem split_eq_split_iff (ts : List α) :
    split key ts = split key' ts ↔
      ∀ pre t post, ts = pre ++ t :: post → (Record key pre t ↔ Record key' pre t) := by
  cases ts with
  | nil =>
      refine ⟨fun _ pre t post heq => ?_, fun _ => rfl⟩
      exact absurd heq.symm (by simp)
  | cons t ts =>
      rw [split, split, splitFrom_eq_splitFrom_iff]
      constructor
      · intro h pre u post heq
        cases pre with
        | nil => simp [Record]
        | cons s pre =>
            obtain ⟨rfl, htl⟩ := List.cons.inj heq
            rw [record_cons, record_cons]
            exact h pre u post htl
      · intro h pre u post heq
        rw [← record_cons, ← record_cons]
        exact h (t :: pre) u post (by rw [heq, List.cons_append])

end Rises
