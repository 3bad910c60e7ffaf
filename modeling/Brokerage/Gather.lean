/-
**Elements gathered under their keys.**

A loop over a list keeps a dictionary: the first element with a key makes the value under the key, and
every later one is added to it.  What is under a key at the end is made of the elements with the key,
in their order.  When the keys of the list ascend, the entries of the dictionary are the runs of the
list, and gathering by a finer key first changes nothing.  Nothing in this module refers to a
particular program.

Main definitions:

* `Dict.gather` — the elements of a list under their keys;
* `Dict.summary` — the value of some elements;
* `Dict.sortedValues` — the values, by their keys;
* `Dict.runs` — the runs of a list with their values;
* `Dict.Coarsens` — a key that is coarser than another one.

Main results:

* `Dict.get?_gather`, `Dict.mem_keys_gather` — what is under a key, and which keys there are;
* `Dict.sortedValues_gather` — the values of a list with ascending keys are those of its runs;
* `Dict.Coarsens.runs_runs` — the runs of the runs by a finer key.
-/

import Brokerage.Dict

set_option relaxedAutoImplicit false
set_option autoImplicit false

namespace Dict

variable {α κ ν : Type*}

section Gather

variable [DecidableEq κ] (key : α → κ) (new : α → ν) (add : ν → α → ν)

/-- One more element. -/
def gatherStep (d : Dict κ ν) (a : α) : Dict κ ν :=
  match d.get? (key a) with
  | none => d.set (key a) (new a)
  | some v => d.set (key a) (add v a)

/-- The elements of a list under their keys. -/
def gather (l : List α) : Dict κ ν := l.foldl (gatherStep key new add) empty

/-- The value of some elements. -/
def summary : List α → Option ν
  | [] => none
  | a :: l => some (l.foldl add (new a))

variable {key new add}

theorem get?_gatherStep (d : Dict κ ν) (a : α) (k : κ) :
    (gatherStep key new add d a).get? k =
      if k = key a then some (((d.get? k).map fun v => add v a).getD (new a)) else d.get? k := by
  cases h : d.get? (key a) with
  | none =>
      simp only [gatherStep, h, get?_set]
      split
      · next hk => rw [hk, h]; rfl
      · rfl
  | some v =>
      simp only [gatherStep, h, get?_set]
      split
      · next hk => rw [hk, h]; rfl
      · rfl

/-- Under a key is the value of the elements with the key. -/
theorem get?_gather (l : List α) (k : κ) :
    (gather key new add l).get? k = summary new add (l.filter fun a => key a = k) := by
  have hfold : ∀ (l : List α) (d : Dict κ ν), (l.foldl (gatherStep key new add) d).get? k =
      match d.get? k with
      | none => summary new add (l.filter fun a => key a = k)
      | some v => some ((l.filter fun a => key a = k).foldl add v) := by
    intro l
    induction l with
    | nil =>
        intro d
        cases h : d.get? k <;> simp [h, summary]
    | cons a l ih =>
        intro d
        rw [List.foldl_cons, ih, get?_gatherStep]
        by_cases hk : key a = k
        · cases h : d.get? k <;> simp [hk, summary]
        · cases h : d.get? k <;> simp [hk, Ne.symm hk, summary]
  exact hfold l empty

theorem summary_eq_none_iff {l : List α} : summary new add l = none ↔ l = [] := by
  cases l with
  | nil => simp [summary]
  | cons a l => simp [summary]

/-- A key is there if some element has it. -/
theorem mem_keys_gather {l : List α} {k : κ} :
    k ∈ (gather key new add l).keys ↔ ∃ a ∈ l, key a = k := by
  rw [← not_iff_not, ← get?_eq_none_iff, get?_gather, summary_eq_none_iff, List.filter_eq_nil_iff]
  simp

end Gather

/-! ### The values by their keys -/

section Sorted

variable [LinearOrder κ]

/-- The values, that under the smallest key first. -/
def sortedValues (d : Dict κ ν) : List ν := d.sortedKeys.filterMap d.get?

theorem mem_sortedValues {d : Dict κ ν} {v : ν} : v ∈ d.sortedValues ↔ ∃ k, d.get? k = some v := by
  simp only [sortedValues, List.mem_filterMap, mem_sortedKeys]
  constructor
  · rintro ⟨k, _, hk⟩
    exact ⟨k, hk⟩
  · rintro ⟨k, hk⟩
    exact ⟨k, mem_keys_of_get? hk, hk⟩

/-- There is a value for every key. -/
theorem length_sortedValues (d : Dict κ ν) : d.sortedValues.length = d.keys.length := by
  have hsorted : d.sortedKeys.length = d.keys.length := List.length_insertionSort _ _
  rw [← hsorted, sortedValues, List.length_filterMap_eq_countP, List.countP_eq_length]
  intro k hk
  exact mem_keys_iff_contains.1 (mem_sortedKeys.1 hk)

/-- If the values carry their keys, they ascend by them. -/
theorem pairwise_sortedValues {d : Dict κ ν} {stamp : ν → κ}
    (h : ∀ k v, d.get? k = some v → stamp v = k) :
    d.sortedValues.Pairwise (stamp · < stamp ·) := by
  rw [sortedValues, List.pairwise_filterMap]
  refine d.sortedKeys_pairwise.imp fun {k k'} hlt v hv v' hv' => ?_
  rw [h k v hv, h k' v' hv']
  exact hlt

/-- If the keys ascend, the values are in the order of the entries. -/
theorem sortedValues_eq_values {d : Dict κ ν} (h : d.keys.Pairwise (· < ·)) :
    d.sortedValues = d.values := by
  have hkeys : d.sortedKeys = d.keys :=
    List.Pairwise.insertionSort_eq (h.imp fun hlt => le_of_lt hlt)
  have hget : ∀ l : List (κ × ν), (∀ p ∈ l, d.get? p.1 = some p.2) →
      (l.map Prod.fst).filterMap d.get? = l.map Prod.snd := by
    intro l
    induction l with
    | nil => exact fun _ => rfl
    | cons p l ih =>
        intro hl
        rw [List.map_cons, List.filterMap_cons, hl p List.mem_cons_self,
          ih fun q hq => hl q (List.mem_cons_of_mem p hq)]
        rfl
  rw [sortedValues, hkeys]
  exact hget d.entries fun p hp => get?_eq_some_iff.2 hp

end Sorted

/-! ### Runs -/

section Runs

variable [LinearOrder κ] (key : α → κ) (new : α → ν) (add : ν → α → ν)

/-- The runs of a list, of which the first one has begun. -/
def runsFrom (k : κ) (v : ν) : List α → List (κ × ν)
  | [] => [(k, v)]
  | a :: l => if key a = k then runsFrom k (add v a) l else (k, v) :: runsFrom (key a) (new a) l

/-- The runs of elements with one key in a list. -/
def runs : List α → List (κ × ν)
  | [] => []
  | a :: l => runsFrom key new add (key a) (new a) l

variable {key new add}

theorem setEntries_last {es : List (κ × ν)} {k : κ} (h : ∀ e ∈ es, e.1 < k) (v w : ν) :
    setEntries k w (es ++ [(k, v)]) = es ++ [(k, w)] := by
  induction es with
  | nil => simp [setEntries]
  | cons e es ih =>
      have he := (h e List.mem_cons_self).ne
      rw [List.cons_append, setEntries, if_neg he, ih fun e' he' => h e' (List.mem_cons_of_mem e he')]
      rfl

theorem setEntries_new {es : List (κ × ν)} {k : κ} (h : ∀ e ∈ es, e.1 < k) (w : ν) :
    setEntries k w es = es ++ [(k, w)] := by
  induction es with
  | nil => rfl
  | cons e es ih =>
      have he := (h e List.mem_cons_self).ne
      rw [setEntries, if_neg he, ih fun e' he' => h e' (List.mem_cons_of_mem e he')]
      rfl

/-- As long as the keys do not descend, only the last entry changes. -/
theorem entries_foldl_gatherStep {l : List α} : ∀ {d : Dict κ ν} {es : List (κ × ν)} {k : κ} {v : ν},
    d.entries = es ++ [(k, v)] → (∀ e ∈ es, e.1 < k) → (∀ a ∈ l, k ≤ key a) →
    l.Pairwise (key · ≤ key ·) →
    (l.foldl (gatherStep key new add) d).entries = es ++ runsFrom key new add k v l := by
  induction l with
  | nil => exact fun hd _ _ _ => hd
  | cons a l ih =>
      intro d es k v hd hes hle hl
      rw [List.pairwise_cons] at hl
      have hlast : d.get? k = some v := by
        rw [get?_eq_some_iff, hd]
        exact List.mem_append_right es List.mem_cons_self
      rw [List.foldl_cons, runsFrom]
      by_cases hk : key a = k
      · rw [if_pos hk]
        refine ih ?_ hes (fun b hb => hle b (List.mem_cons_of_mem a hb)) hl.2
        simp only [gatherStep, hk, hlast, set]
        rw [hd, setEntries_last hes]
      · rw [if_neg hk]
        have hlt : k < key a := lt_of_le_of_ne (hle a List.mem_cons_self) (Ne.symm hk)
        have hbefore : ∀ e ∈ es ++ [(k, v)], e.1 < key a := by
          intro e he
          rcases List.mem_append.1 he with he | he
          · exact (hes e he).trans hlt
          · rwa [List.mem_singleton.1 he]
        have hnone : d.get? (key a) = none := by
          rw [get?_eq_none_iff, keys, hd]
          intro hmem
          obtain ⟨e, he, heq⟩ := List.mem_map.1 hmem
          exact (hbefore e he).ne heq
        have hset : (gatherStep key new add d a).entries =
            (es ++ [(k, v)]) ++ [(key a, new a)] := by
          simp only [gatherStep, hnone, set]
          rw [hd, setEntries_new hbefore]
        rw [ih hset hbefore hl.1 hl.2, List.append_assoc]
        rfl

/-- The entries of a list with ascending keys are its runs. -/
theorem entries_gather {l : List α} (h : l.Pairwise (key · ≤ key ·)) :
    (gather key new add l).entries = runs key new add l := by
  cases l with
  | nil => rfl
  | cons a l =>
      rw [List.pairwise_cons] at h
      have hset : (gatherStep key new add empty a).entries = [] ++ [(key a, new a)] := rfl
      exact entries_foldl_gatherStep hset (fun _ he => absurd he List.not_mem_nil) h.1 h.2

theorem pairwise_runsFrom {l : List α} : ∀ {k : κ} {v : ν}, (∀ a ∈ l, k ≤ key a) →
    l.Pairwise (key · ≤ key ·) →
    (∀ p ∈ runsFrom key new add k v l, k ≤ p.1) ∧
      (runsFrom key new add k v l).Pairwise (·.1 < ·.1) := by
  induction l with
  | nil => simp [runsFrom]
  | cons a l ih =>
      intro k v hle hl
      rw [List.pairwise_cons] at hl
      rw [runsFrom]
      by_cases hk : key a = k
      · rw [if_pos hk]
        exact ih (fun b hb => hle b (List.mem_cons_of_mem a hb)) hl.2
      · rw [if_neg hk]
        have hlt : k < key a := lt_of_le_of_ne (hle a List.mem_cons_self) (Ne.symm hk)
        have ⟨hge, hpairwise⟩ := @ih (key a) (new a) hl.1 hl.2
        constructor
        · intro p hp
          rcases List.mem_cons.1 hp with rfl | hp
          · exact le_rfl
          · exact hlt.le.trans (hge p hp)
        · exact List.pairwise_cons.2 ⟨fun p hp => hlt.trans_le (hge p hp), hpairwise⟩

/-- The runs of a list with ascending keys have different keys. -/
theorem pairwise_runs {l : List α} (h : l.Pairwise (key · ≤ key ·)) :
    (runs key new add l).Pairwise (·.1 < ·.1) := by
  cases l with
  | nil => exact List.Pairwise.nil
  | cons a l =>
      rw [List.pairwise_cons] at h
      exact (pairwise_runsFrom h.1 h.2).2

/-- The values of a list with ascending keys are those of its runs. -/
theorem sortedValues_gather {l : List α} (h : l.Pairwise (key · ≤ key ·)) :
    (gather key new add l).sortedValues = (runs key new add l).map Prod.snd := by
  have hkeys : (gather key new add l).keys.Pairwise (· < ·) := by
    rw [keys, entries_gather h, List.pairwise_map]
    exact pairwise_runs h
  rw [sortedValues_eq_values hkeys, values, entries_gather h]

end Runs

/-! ### A coarser key -/

section Coarsens

variable [LinearOrder κ]

/-- The key `key'` is coarser than `key`: elements with one key have one coarser key, which a value
keeps; and values of the finer key can be added to those of the coarser key instead of the elements. -/
structure Coarsens (key key' : α → κ) (new new' : α → α) (add : α → α → α) : Prop where
  key_eq : ∀ a b, key a = key b → key' a = key' b
  key_new : ∀ a, key (new a) = key a
  key_add : ∀ v a, key (add v a) = key v
  new_new : ∀ a, new' (new a) = new' a
  new_add : ∀ v a, new' (add v a) = add (new' v) a
  add_new : ∀ v a, add v (new a) = add v a
  add_add : ∀ v w a, add v (add w a) = add (add v w) a

variable {key key' : α → κ} {new new' : α → α} {add : α → α → α}

/-- A new value of the finer key can stand for its element. -/
theorem Coarsens.runsFrom_new (h : Coarsens key key' new new' add) (k' : κ) (v' a : α)
    (l : List α) :
    runsFrom key' new' add k' v' (new a :: l) = runsFrom key' new' add k' v' (a :: l) := by
  simp only [runsFrom, h.key_eq _ _ (h.key_new a), h.new_new, h.add_new]

/-- Gathering by the finer key first, while a run of the coarser key goes on. -/
theorem Coarsens.runsFrom_runsFrom (h : Coarsens key key' new new' add) {l : List α} :
    ∀ {k' v' v}, runsFrom key' new' add k' v' ((runsFrom key new add (key v) v l).map Prod.snd) =
      runsFrom key' new' add k' v' (v :: l) := by
  induction l with
  | nil => exact rfl
  | cons a l ih =>
      intro k' v' v
      rw [runsFrom.eq_def key new add]
      dsimp only
      by_cases hk : key a = key v
      · -- the element belongs to the finer run, so also to the coarser one
        have hk' := h.key_eq a v hk
        have hkadd := h.key_eq _ _ (h.key_add v a)
        rw [if_pos hk, ← h.key_add v a, ih]
        simp only [runsFrom, hkadd, hk', h.new_add, h.add_add]
        split
        · rfl
        · rw [if_true]
      · -- a new finer run begins
        rw [if_neg hk, List.map_cons, ← h.key_new a, runsFrom.eq_def key' new' add k' v']
        simp only [ih, h.runsFrom_new]
        rfl

/-- The runs by a coarser key do not depend on whether the elements are gathered by a finer one
first. -/
theorem Coarsens.runs_runs (h : Coarsens key key' new new' add) (l : List α) :
    runs key' new' add ((runs key new add l).map Prod.snd) = runs key' new' add l := by
  have hfrom : ∀ (l : List α) (v : α),
      runs key' new' add ((runsFrom key new add (key v) v l).map Prod.snd) =
        runs key' new' add (v :: l) := by
    intro l
    induction l with
    | nil => exact fun _ => rfl
    | cons a l ih =>
        intro v
        rw [runsFrom]
        by_cases hk : key a = key v
        · rw [if_pos hk, ← h.key_add v a, ih]
          simp only [runs, runsFrom, h.key_eq _ _ (h.key_add v a), h.key_eq a v hk, h.new_add,
            if_true]
        · rw [if_neg hk, List.map_cons, ← h.key_new a]
          simp only [runs, h.runsFrom_runsFrom, h.runsFrom_new]
  cases l with
  | nil => rfl
  | cons a l =>
      rw [runs, ← h.key_new a, hfrom]
      simp only [runs, h.key_eq _ _ (h.key_new a), h.new_new]

end Coarsens

end Dict
