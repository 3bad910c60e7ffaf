/-
**Insertion-ordered dictionaries.**

The dictionaries of the modelled language keep their entries in the order in which the keys were
first inserted: writing to a present key keeps its place, writing to an absent one appends.  The
type below carries the fact that no key occurs twice, so that no later statement has to assume it.

Main definitions:

* `Dict` — the entries of a dictionary, with distinct keys;
* `Dict.get?`, `Dict.set`, `Dict.erase` — reading, writing and deleting a key;
* `Dict.values`, `Dict.keys` — the values and the keys, in insertion order;
* `Dict.latest`, `Dict.keyed` — the last element with a key, and a list as a dictionary;
* `Dict.push`, `Dict.group` — lists under keys.

Main results:

* `Dict.get?_set`, `Dict.get?_setAll`, `Dict.get?_erase` — reading after writing and after deleting;
* `Dict.get?_foldl_set` — writing what comes of the old values;
* `Dict.mem_values_keyed` — what is kept of a list;
* `Dict.values_set_of_not_mem` — writing to an absent key appends the value;
* `Dict.sum_values_set`, `Dict.sum_values_erase` — what the two operations do to a sum over the
  values.
-/

import Mathlib

set_option relaxedAutoImplicit false
set_option autoImplicit false

/-- An insertion-ordered dictionary: entries with pairwise distinct keys. -/
structure Dict (κ ν : Type*) where
  /-- The entries, oldest key first. -/
  entries : List (κ × ν)
  /-- No key occurs twice. -/
  nodup : (entries.map Prod.fst).Nodup
  deriving DecidableEq

namespace Dict

variable {κ ν : Type*}

/-- The dictionary without entries. -/
def empty : Dict κ ν := ⟨[], List.nodup_nil⟩

/-- The keys, in insertion order. -/
def keys (d : Dict κ ν) : List κ := d.entries.map Prod.fst

/-- The values, in insertion order. -/
def values (d : Dict κ ν) : List ν := d.entries.map Prod.snd

@[simp] theorem keys_empty : (empty : Dict κ ν).keys = [] := rfl

@[simp] theorem values_empty : (empty : Dict κ ν).values = [] := rfl

theorem nodup_keys (d : Dict κ ν) : d.keys.Nodup := d.nodup

variable [DecidableEq κ]

/-! ### Reading -/

/-- The value stored under a key, if any. -/
def get? (d : Dict κ ν) (k : κ) : Option ν := d.entries.lookup k

/-- Whether a key is present. -/
def contains (d : Dict κ ν) (k : κ) : Bool := (d.get? k).isSome

@[simp] theorem get?_empty (k : κ) : (empty : Dict κ ν).get? k = none := rfl

theorem lookup_cons_ite (k : κ) (p : κ × ν) (l : List (κ × ν)) :
    (p :: l).lookup k = if k = p.1 then some p.2 else l.lookup k := by
  obtain ⟨j, v⟩ := p
  by_cases h : k = j
  · subst h
    simp
  · have hbeq : (k == j) = false := by simpa using h
    simp [List.lookup_cons, hbeq, h]

theorem lookup_eq_some_iff_mem {l : List (κ × ν)} (h : (l.map Prod.fst).Nodup) {k : κ} {v : ν} :
    l.lookup k = some v ↔ (k, v) ∈ l := by
  induction l with
  | nil => simp
  | cons p l ih =>
      obtain ⟨k', v'⟩ := p
      simp only [List.map_cons, List.nodup_cons] at h
      rw [lookup_cons_ite, List.mem_cons]
      by_cases hk : k = k'
      · subst hk
        have hnot : (k, v) ∉ l := fun hmem => h.1 (List.mem_map.2 ⟨_, hmem, rfl⟩)
        simp [hnot, eq_comm]
      · simp [ih h.2, hk]

/-- A key reads as `v` exactly when the pair is an entry. -/
theorem get?_eq_some_iff {d : Dict κ ν} {k : κ} {v : ν} :
    d.get? k = some v ↔ (k, v) ∈ d.entries :=
  lookup_eq_some_iff_mem d.nodup

theorem get?_eq_none_iff {d : Dict κ ν} {k : κ} : d.get? k = none ↔ k ∉ d.keys := by
  constructor
  · intro h hk
    obtain ⟨⟨k', v⟩, hmem, rfl⟩ := List.mem_map.1 hk
    rw [get?_eq_some_iff.2 hmem] at h
    cases h
  · intro h
    cases hv : d.get? k with
    | none => rfl
    | some v => exact absurd (List.mem_map.2 ⟨_, get?_eq_some_iff.1 hv, rfl⟩) h

theorem mem_keys_of_get? {d : Dict κ ν} {k : κ} {v : ν} (h : d.get? k = some v) : k ∈ d.keys :=
  List.mem_map.2 ⟨_, get?_eq_some_iff.1 h, rfl⟩

theorem mem_keys_iff_contains {d : Dict κ ν} {k : κ} : k ∈ d.keys ↔ d.contains k = true := by
  rw [contains, Option.isSome_iff_ne_none, Ne, get?_eq_none_iff, not_not]

/-- A value is present exactly when some key reads as it. -/
theorem mem_values_iff {d : Dict κ ν} {v : ν} : v ∈ d.values ↔ ∃ k, d.get? k = some v := by
  constructor
  · intro h
    obtain ⟨⟨k, v'⟩, hmem, rfl⟩ := List.mem_map.1 h
    exact ⟨k, get?_eq_some_iff.2 hmem⟩
  · rintro ⟨k, hk⟩
    exact List.mem_map.2 ⟨_, get?_eq_some_iff.1 hk, rfl⟩

/-! ### Writing -/

/-- Writing to a list of entries: in place if the key is there, at the end otherwise. -/
def setEntries (k : κ) (v : ν) : List (κ × ν) → List (κ × ν)
  | [] => [(k, v)]
  | p :: l => if p.1 = k then (k, v) :: l else p :: setEntries k v l

theorem keys_setEntries (k : κ) (v : ν) (l : List (κ × ν)) :
    (setEntries k v l).map Prod.fst =
      if k ∈ l.map Prod.fst then l.map Prod.fst else l.map Prod.fst ++ [k] := by
  induction l with
  | nil => simp [setEntries]
  | cons p l ih =>
      by_cases hk : p.1 = k
      · simp [setEntries, hk]
      · simp only [setEntries, if_neg hk, List.map_cons, ih, List.mem_cons]
        by_cases hmem : k ∈ l.map Prod.fst
        · simp [hmem]
        · simp [hmem, Ne.symm hk]

/-- The dictionary in which `k` reads as `v`. -/
def set (d : Dict κ ν) (k : κ) (v : ν) : Dict κ ν where
  entries := setEntries k v d.entries
  nodup := by
    rw [keys_setEntries]
    split
    · exact d.nodup
    · rename_i hk
      exact List.nodup_append.2 ⟨d.nodup, List.nodup_singleton k, by
        intro a ha b hb
        obtain rfl := List.mem_singleton.1 hb
        rintro rfl
        exact hk ha⟩

theorem keys_set (d : Dict κ ν) (k : κ) (v : ν) :
    (d.set k v).keys = if k ∈ d.keys then d.keys else d.keys ++ [k] :=
  keys_setEntries k v d.entries

theorem lookup_setEntries (k k' : κ) (v : ν) (l : List (κ × ν)) :
    (setEntries k v l).lookup k' = if k' = k then some v else l.lookup k' := by
  induction l with
  | nil => simp [setEntries, lookup_cons_ite]
  | cons p l ih =>
      obtain ⟨j, w⟩ := p
      by_cases hj : j = k
      · subst hj
        by_cases h : k' = j <;> simp [setEntries, lookup_cons_ite, h]
      · simp only [setEntries, if_neg hj, lookup_cons_ite, ih]
        by_cases h : k' = k
        · subst h
          simp [Ne.symm hj]
        · simp [h]

/-- Reading after writing. -/
theorem get?_set (d : Dict κ ν) (k k' : κ) (v : ν) :
    (d.set k v).get? k' = if k' = k then some v else d.get? k' :=
  lookup_setEntries k k' v d.entries

/-- Writing the value that is there already. -/
theorem set_of_get? {d : Dict κ ν} {k : κ} {v : ν} (h : d.get? k = some v) : d.set k v = d := by
  have key : ∀ l : List (κ × ν), l.lookup k = some v → setEntries k v l = l := by
    intro l hl
    induction l with
    | nil => cases hl
    | cons p l ih =>
        obtain ⟨j, w⟩ := p
        rw [lookup_cons_ite] at hl
        by_cases hk : j = k
        · rw [if_pos hk.symm] at hl
          rw [setEntries, if_pos hk, ← Option.some.inj hl, hk]
        · rw [if_neg (Ne.symm hk)] at hl
          rw [setEntries, if_neg hk, ih hl]
  cases d with
  | mk entries nodup =>
      simp only [set]
      congr 1
      exact key entries h

@[simp] theorem get?_set_self (d : Dict κ ν) (k : κ) (v : ν) : (d.set k v).get? k = some v := by
  rw [get?_set, if_pos rfl]

theorem get?_set_of_ne (d : Dict κ ν) {k k' : κ} (v : ν) (h : k' ≠ k) :
    (d.set k v).get? k' = d.get? k' := by
  rw [get?_set, if_neg h]

theorem mem_keys_set {d : Dict κ ν} {k k' : κ} {v : ν} :
    k' ∈ (d.set k v).keys ↔ k' = k ∨ k' ∈ d.keys := by
  rw [keys_set]
  split
  · rename_i hk
    constructor
    · exact Or.inr
    · rintro (rfl | h)
      · exact hk
      · exact h
  · simp [or_comm]

/-- Writing to an absent key appends the entry. -/
theorem entries_set_of_not_mem {d : Dict κ ν} {k : κ} (v : ν) (h : k ∉ d.keys) :
    (d.set k v).entries = d.entries ++ [(k, v)] := by
  have key : ∀ l : List (κ × ν), k ∉ l.map Prod.fst → setEntries k v l = l ++ [(k, v)] := by
    intro l
    induction l with
    | nil => intro _; rfl
    | cons p l ih =>
        intro hk
        simp only [List.map_cons, List.mem_cons, not_or] at hk
        simp [setEntries, Ne.symm hk.1, ih hk.2]
  exact key d.entries h

/-- Writing to an absent key appends the value. -/
theorem values_set_of_not_mem {d : Dict κ ν} {k : κ} (v : ν) (h : k ∉ d.keys) :
    (d.set k v).values = d.values ++ [v] := by
  simp [values, entries_set_of_not_mem v h]

/-! ### Writing many values -/

/-- The dictionary after writing the pairs, first to last. -/
def setAll (d : Dict κ ν) (ps : List (κ × ν)) : Dict κ ν := ps.foldl (fun d p => d.set p.1 p.2) d

/-- Of the pairs written under a key the last one counts. -/
theorem get?_setAll (d : Dict κ ν) (ps : List (κ × ν)) (k : κ) :
    (d.setAll ps).get? k = (ps.reverse.lookup k).or (d.get? k) := by
  induction ps generalizing d with
  | nil => rfl
  | cons p ps ih =>
      have hrest : (d.setAll (p :: ps)).get? k = ((d.set p.1 p.2).setAll ps).get? k := rfl
      rw [hrest, ih, get?_set, List.reverse_cons, List.lookup_append, Option.or_assoc,
        lookup_cons_ite]
      split <;> rfl

/-- With distinct keys the order of the pairs does not matter to reading. -/
theorem lookup_of_perm {ps qs : List (κ × ν)} (h : ps.Perm qs) (hnodup : (qs.map Prod.fst).Nodup)
    (k : κ) : ps.lookup k = qs.lookup k := by
  refine Option.ext fun v => ?_
  rw [lookup_eq_some_iff_mem ((h.map Prod.fst).nodup_iff.2 hnodup), lookup_eq_some_iff_mem hnodup,
    h.mem_iff]

/-- A dictionary written over another. -/
theorem get?_setAll_entries (d e : Dict κ ν) (k : κ) :
    (d.setAll e.entries).get? k = (e.get? k).or (d.get? k) := by
  rw [get?_setAll, lookup_of_perm (List.reverse_perm _) e.nodup]
  rfl

/-- Writing under each key of a dictionary what comes of the old value and the one that is there. -/
theorem get?_foldl_set {μ : Type*} (g : Option ν → μ → ν) (e : Dict κ μ) (d : Dict κ ν) (k : κ) :
    (e.entries.foldl (fun d p => d.set p.1 (g (d.get? p.1) p.2)) d).get? k =
      match e.get? k with
      | none => d.get? k
      | some v => some (g (d.get? k) v) := by
  have key : ∀ (l : List (κ × μ)) (d : Dict κ ν), (l.map Prod.fst).Nodup →
      (l.foldl (fun d p => d.set p.1 (g (d.get? p.1) p.2)) d).get? k =
        match l.lookup k with
        | none => d.get? k
        | some v => some (g (d.get? k) v) := by
    intro l
    induction l with
    | nil => exact fun d _ => rfl
    | cons p l ih =>
        intro d hl
        rw [List.map_cons, List.nodup_cons] at hl
        rw [List.foldl_cons, ih _ hl.2, lookup_cons_ite]
        by_cases hk : k = p.1
        · -- the key does not come again
          have hlookup : l.lookup k = none := by
            cases hv : l.lookup k with
            | none => rfl
            | some v =>
                have hmem := (lookup_eq_some_iff_mem hl.2).1 hv
                exact absurd (List.mem_map.2 ⟨_, hmem, hk⟩) hl.1
          rw [hlookup, if_pos hk, hk]
          exact get?_set_self ..
        · rw [get?_set_of_ne _ _ hk, if_neg hk]
  exact key e.entries d e.nodup

/-- Entries whose keys are renamed and whose values are computed from the old ones. -/
theorem lookup_map {κ' μ : Type*} [DecidableEq κ'] {f : κ → κ'} (hf : Function.Injective f)
    (g : ν → μ) (l : List (κ × ν)) (k : κ) :
    (l.map fun p => (f p.1, g p.2)).lookup (f k) = (l.lookup k).map g := by
  induction l with
  | nil => rfl
  | cons p l ih =>
      rw [List.map_cons, lookup_cons_ite, lookup_cons_ite, ih]
      by_cases hk : k = p.1
      · rw [if_pos hk, if_pos (congrArg f hk)]
        rfl
      · rw [if_neg hk, if_neg fun h => hk (hf h)]

/-- Writing such entries into the empty dictionary. -/
theorem get?_setAll_map {κ' μ : Type*} [DecidableEq κ'] {f : κ → κ'} (hf : Function.Injective f)
    (g : ν → μ) (d : Dict κ ν) (k : κ) :
    (empty.setAll (d.entries.map fun p => (f p.1, g p.2))).get? (f k) = (d.get? k).map g := by
  have hnodup : ((d.entries.map fun p => (f p.1, g p.2)).map Prod.fst).Nodup := by
    rw [List.map_map]
    have hkeys := d.nodup.map hf
    rwa [List.map_map] at hkeys
  rw [get?_setAll, get?_empty, Option.or_none, lookup_of_perm (List.reverse_perm _) hnodup,
    lookup_map hf]
  rfl

/-! ### Elements under their keys -/

section Keyed

variable {α : Type*} (key : α → κ)

/-- The last element of a list with a key. -/
def latest (l : List α) (k : κ) : Option α := l.reverse.find? fun a => key a = k

/-- The elements of a list under their keys, where of those with one key the last one counts. -/
def keyed (l : List α) : Dict κ α := empty.setAll (l.map fun a => (key a, a))

variable {key}

theorem latest_append (l l' : List α) (k : κ) :
    latest key (l ++ l') k = (latest key l' k).or (latest key l k) := by
  rw [latest, List.reverse_append, List.find?_append]
  rfl

theorem latest_eq_some {l : List α} {k : κ} {a : α} (h : latest key l k = some a) :
    a ∈ l ∧ key a = k :=
  ⟨List.mem_reverse.1 (List.mem_of_find?_eq_some h), by simpa using List.find?_some h⟩

theorem latest_eq_none_iff {l : List α} {k : κ} :
    latest key l k = none ↔ ∀ a ∈ l, key a ≠ k := by
  simp [latest, List.find?_eq_none]

theorem latest_singleton (a : α) (k : κ) :
    latest key [a] k = if key a = k then some a else none := by
  by_cases h : key a = k
  · simp [latest, h]
  · simp [latest, h]

/-- Only the elements with a key decide which is the last one. -/
theorem latest_eq_getLast? (l : List α) (k : κ) :
    latest key l k = (l.filter fun a => key a = k).getLast? := by
  rw [latest, ← List.head?_filter, List.filter_reverse, List.head?_reverse]

/-- Without the elements that are not chosen by their key. -/
theorem latest_filter (p : κ → Bool) (l : List α) (k : κ) :
    latest key (l.filter fun a => p (key a)) k = if p k then latest key l k else none := by
  rw [latest_eq_getLast?, latest_eq_getLast?, List.filter_filter]
  split
  · rename_i hp
    refine congrArg List.getLast? (List.filter_congr fun a _ => ?_)
    by_cases hk : key a = k
    · simp [hk, hp]
    · simp [hk]
  · rename_i hp
    rw [List.filter_eq_nil_iff.2, List.getLast?_nil]
    intro a _ ha
    simp only [Bool.and_eq_true, decide_eq_true_eq] at ha
    exact hp (ha.1 ▸ ha.2)

/-- Where no key occurs twice, every element is the last one with its key. -/
theorem latest_eq_some_iff {l : List α} (h : l.Pairwise (key · ≠ key ·)) {k : κ} {a : α} :
    latest key l k = some a ↔ a ∈ l ∧ key a = k := by
  refine ⟨latest_eq_some, ?_⟩
  rintro ⟨ha, rfl⟩
  cases hb : latest key l (key a) with
  | none => exact absurd rfl (latest_eq_none_iff.1 hb a ha)
  | some b =>
      obtain ⟨hbl, hkey⟩ := latest_eq_some hb
      have hnodup : (l.map key).Nodup := List.pairwise_map.2 h
      rw [List.inj_on_of_nodup_map hnodup hbl ha hkey]

theorem lookup_map_key (l : List α) (k : κ) :
    (l.map fun a => (key a, a)).lookup k = l.find? fun a => key a = k := by
  induction l with
  | nil => rfl
  | cons a l ih =>
      rw [List.map_cons, lookup_cons_ite, ih, List.find?_cons]
      by_cases h : k = key a
      · simp [h]
      · simp [h, Ne.symm h]

@[simp] theorem get?_keyed (l : List α) (k : κ) : (keyed key l).get? k = latest key l k := by
  rw [keyed, get?_setAll, get?_empty, Option.or_none, ← List.map_reverse, lookup_map_key]
  rfl

theorem keyed_append (l l' : List α) :
    keyed key (l ++ l') = (keyed key l).setAll (l'.map fun a => (key a, a)) := by
  rw [keyed, List.map_append, setAll, List.foldl_append]
  rfl

/-- No key occurs twice among the values. -/
theorem pairwise_keyed (l : List α) : (keyed key l).values.Pairwise (key · ≠ key ·) := by
  have hkeys : (keyed key l).values.map key = (keyed key l).keys := by
    rw [values, keys, List.map_map]
    refine List.map_congr_left fun p hp => ?_
    have hget := get?_eq_some_iff.2 hp
    rw [get?_keyed] at hget
    exact (latest_eq_some hget).2
  refine List.pairwise_map.1 ?_
  rw [hkeys]
  exact nodup_keys _

/-- The values are the elements that are the last ones with their keys. -/
theorem mem_values_keyed {l : List α} {a : α} :
    a ∈ (keyed key l).values ↔ latest key l (key a) = some a := by
  rw [mem_values_iff]
  constructor
  · rintro ⟨k, hk⟩
    rw [get?_keyed] at hk
    obtain ⟨-, rfl⟩ := latest_eq_some hk
    exact hk
  · exact fun h => ⟨key a, by rw [get?_keyed, h]⟩

/-- Any list of the values has them as its last elements. -/
theorem latest_of_perm {l l' : List α} (h : l'.Perm (keyed key l).values) (k : κ) :
    latest key l' k = latest key l k := by
  have hpairwise : l'.Pairwise (key · ≠ key ·) :=
    h.symm.pairwise (pairwise_keyed l) fun hab hba => hab hba.symm
  refine Option.ext fun a => ?_
  rw [latest_eq_some_iff hpairwise, h.mem_iff, mem_values_keyed]
  constructor
  · rintro ⟨ha, rfl⟩
    exact ha
  · intro ha
    obtain ⟨-, rfl⟩ := latest_eq_some ha
    exact ⟨ha, rfl⟩

theorem latest_map {β : Type*} (f : β → α) (l : List β) (k : κ) :
    latest key (l.map f) k = (latest (fun b => key (f b)) l k).map f := by
  rw [latest, ← List.map_reverse, List.find?_map]
  rfl

end Keyed

/-! ### Deleting -/

/-- The dictionary without the key `k`. -/
def erase (d : Dict κ ν) (k : κ) : Dict κ ν where
  entries := d.entries.filter fun p => p.1 ≠ k
  nodup := d.nodup.sublist (List.filter_sublist.map Prod.fst)

theorem mem_keys_erase {d : Dict κ ν} {k k' : κ} : k' ∈ (d.erase k).keys ↔ k' ∈ d.keys ∧ k' ≠ k := by
  simp only [keys, erase, List.mem_map, List.mem_filter, decide_eq_true_eq]
  constructor
  · rintro ⟨p, ⟨hp, hne⟩, rfl⟩
    exact ⟨⟨p, hp, rfl⟩, hne⟩
  · rintro ⟨⟨p, hp, rfl⟩, hne⟩
    exact ⟨p, ⟨hp, hne⟩, rfl⟩

theorem keys_erase (d : Dict κ ν) (k : κ) : (d.erase k).keys = d.keys.erase k := by
  have hne : (fun p : κ × ν => decide (p.1 ≠ k)) = (fun j => j != k) ∘ Prod.fst := by
    funext p
    simp [bne, Bool.beq_eq_decide_eq]
  rw [d.nodup_keys.erase_eq_filter, keys, keys, List.filter_map, ← hne]
  rfl

/-- Reading after deleting. -/
theorem get?_erase (d : Dict κ ν) (k k' : κ) :
    (d.erase k).get? k' = if k' = k then none else d.get? k' := by
  split
  · rename_i h
    rw [get?_eq_none_iff, mem_keys_erase]
    exact fun hk => hk.2 h
  · rename_i h
    cases hv : d.get? k' with
    | none =>
        rw [get?_eq_none_iff, mem_keys_erase]
        exact fun hk => get?_eq_none_iff.1 hv hk.1
    | some v =>
        rw [get?_eq_some_iff] at hv ⊢
        exact List.mem_filter.2 ⟨hv, by simpa using h⟩

@[simp] theorem get?_erase_self (d : Dict κ ν) (k : κ) : (d.erase k).get? k = none := by
  rw [get?_erase, if_pos rfl]

theorem get?_erase_of_ne (d : Dict κ ν) {k k' : κ} (h : k' ≠ k) :
    (d.erase k).get? k' = d.get? k' := by
  rw [get?_erase, if_neg h]

/-- The dictionary without some keys. -/
def eraseAll (d : Dict κ ν) (ks : List κ) : Dict κ ν := ks.foldl erase d

/-- Reading after deleting some keys. -/
theorem get?_eraseAll (d : Dict κ ν) (ks : List κ) (k : κ) :
    (d.eraseAll ks).get? k = if k ∈ ks then none else d.get? k := by
  induction ks generalizing d with
  | nil => rfl
  | cons j ks ih =>
      rw [eraseAll, List.foldl_cons]
      refine (ih (d.erase j)).trans ?_
      rw [get?_erase]
      by_cases hk : k ∈ ks <;> by_cases hj : k = j <;> simp [hk, hj]

/-! ### Keys in their order -/

section Sorted

variable {κ : Type*} [LinearOrder κ]

/-- The keys, smallest first. -/
def sortedKeys (d : Dict κ ν) : List κ := d.keys.insertionSort (· ≤ ·)

theorem sortedKeys_pairwise (d : Dict κ ν) : d.sortedKeys.Pairwise (· < ·) := by
  have hle : d.sortedKeys.Pairwise (· ≤ ·) := List.pairwise_insertionSort _ _
  have hne : d.sortedKeys.Nodup := (List.perm_insertionSort _ _).nodup_iff.2 d.nodup_keys
  exact hle.imp₂ (fun _ _ hle hne => lt_of_le_of_ne hle hne) hne

theorem mem_sortedKeys {d : Dict κ ν} {k : κ} : k ∈ d.sortedKeys ↔ k ∈ d.keys :=
  (List.perm_insertionSort _ _).mem_iff

end Sorted

/-! ### Lists under keys -/

/-- The list under a key; there is an empty one under an absent key. -/
def getList (d : Dict κ (List ν)) (k : κ) : List ν := (d.get? k).getD []

/-- One more element under a key. -/
def push (d : Dict κ (List ν)) (k : κ) (v : ν) : Dict κ (List ν) := d.set k (d.getList k ++ [v])

theorem getList_push (d : Dict κ (List ν)) (k k' : κ) (v : ν) :
    (d.push k v).getList k' = if k' = k then d.getList k' ++ [v] else d.getList k' := by
  rw [getList, push, get?_set]
  split
  · rename_i h
    rw [h]
    rfl
  · rfl

theorem getList_eraseAll (d : Dict κ (List ν)) (ks : List κ) (k : κ) :
    (d.eraseAll ks).getList k = if k ∈ ks then [] else d.getList k := by
  rw [getList, get?_eraseAll]
  split
  · rfl
  · rfl

theorem mem_keys_of_getList {d : Dict κ (List ν)} {k : κ} (h : d.getList k ≠ []) : k ∈ d.keys := by
  by_contra hk
  rw [getList, get?_eq_none_iff.2 hk] at h
  exact h rfl

/-- The elements of a list, by their keys. -/
def group {α : Type*} (key : α → κ) (f : α → ν) (l : List α) : Dict κ (List ν) :=
  l.foldl (fun d a => d.push (key a) (f a)) empty

/-- Under each key are the elements with that key. -/
theorem getList_group {α : Type*} (key : α → κ) (f : α → ν) (l : List α) (k : κ) :
    (group key f l).getList k = (l.filter fun a => key a = k).map f := by
  have hfold : ∀ (l : List α) (d : Dict κ (List ν)),
      (l.foldl (fun d a => d.push (key a) (f a)) d).getList k =
        d.getList k ++ (l.filter fun a => key a = k).map f := by
    intro l
    induction l with
    | nil => exact fun d => (List.append_nil _).symm
    | cons a l ih =>
        intro d
        rw [List.foldl_cons, ih, getList_push]
        by_cases h : k = key a
        · subst h
          simp
        · simp [h, Ne.symm h]
  exact hfold l empty

/-- A key is there if some element has it. -/
theorem mem_keys_group {α : Type*} {key : α → κ} {f : α → ν} {l : List α} {k : κ} :
    k ∈ (group key f l).keys ↔ ∃ a ∈ l, key a = k := by
  have hfold : ∀ (l : List α) (d : Dict κ (List ν)),
      k ∈ (l.foldl (fun d a => d.push (key a) (f a)) d).keys ↔
        k ∈ d.keys ∨ ∃ a ∈ l, key a = k := by
    intro l
    induction l with
    | nil => exact fun d => ⟨.inl, fun h => h.resolve_right (by rintro ⟨a, ha, -⟩; cases ha)⟩
    | cons a l ih =>
        intro d
        rw [List.foldl_cons, ih, push, mem_keys_set, List.exists_mem_cons_iff, or_assoc,
          or_left_comm, eq_comm]
  rw [group, hfold]
  exact or_iff_right List.not_mem_nil

/-- The list under a key, unless no element has it. -/
theorem get?_group {α : Type*} (key : α → κ) (f : α → ν) (l : List α) (k : κ) :
    (group key f l).get? k =
      if l.filter (fun a => key a = k) = [] then none
      else some ((l.filter fun a => key a = k).map f) := by
  have hlist := getList_group key f l k
  split
  · rename_i hnil
    rw [get?_eq_none_iff, mem_keys_group]
    rintro ⟨a, ha, hk⟩
    exact List.ne_nil_of_mem (List.mem_filter.2 ⟨ha, decide_eq_true hk⟩) hnil
  · rename_i hne
    obtain ⟨a, ha⟩ := List.exists_mem_of_ne_nil _ hne
    obtain ⟨ha, hk⟩ := List.mem_filter.1 ha
    have hmem : k ∈ (group key f l).keys := mem_keys_group.2 ⟨a, ha, of_decide_eq_true hk⟩
    obtain ⟨vs, hvs⟩ := Option.isSome_iff_exists.1 (mem_keys_iff_contains.1 hmem)
    rw [hvs]
    rw [getList, hvs] at hlist
    exact congrArg some hlist

/-! ### Sums over the values -/

section Sums

variable {M : Type*} [AddCommMonoid M] (f : ν → M)

/-- Deleting a key takes its value out of a sum. -/
theorem sum_values_erase {d : Dict κ ν} {k : κ} {v : ν} (h : d.get? k = some v) :
    (d.values.map f).sum = f v + ((d.erase k).values.map f).sum := by
  have key : ∀ l : List (κ × ν), (l.map Prod.fst).Nodup → (k, v) ∈ l →
      ((l.map Prod.snd).map f).sum =
        f v + (((l.filter fun p => p.1 ≠ k).map Prod.snd).map f).sum := by
    intro l
    induction l with
    | nil => intro _ hmem; simp at hmem
    | cons p l ih =>
        intro hnd hmem
        simp only [List.map_cons, List.nodup_cons] at hnd
        rcases List.mem_cons.1 hmem with rfl | hmem
        · -- the deleted entry comes first: no later entry has its key
          have hrest : l.filter (fun p => p.1 ≠ k) = l := by
            refine List.filter_eq_self.2 fun q hq => ?_
            have hqk : q.1 ≠ k := fun hqk => hnd.1 (List.mem_map.2 ⟨q, hq, hqk⟩)
            simpa using hqk
          rw [List.filter_cons_of_neg (by simp), hrest]
          simp
        · have hpk : p.1 ≠ k := fun hpk =>
            hnd.1 (hpk ▸ List.mem_map.2 ⟨(k, v), hmem, rfl⟩)
          rw [List.filter_cons_of_pos (by simpa using hpk)]
          simp only [List.map_cons, List.sum_cons, ih hnd.2 hmem]
          rw [add_left_comm]
  exact key d.entries d.nodup (get?_eq_some_iff.1 h)

/-- Overwriting a value exchanges the two values in a sum. -/
theorem sum_values_set {d : Dict κ ν} {k : κ} {v w : ν} (h : d.get? k = some v) :
    f v + ((d.set k w).values.map f).sum = f w + (d.values.map f).sum := by
  have key : ∀ l : List (κ × ν), l.lookup k = some v →
      f v + (((setEntries k w l).map Prod.snd).map f).sum =
        f w + ((l.map Prod.snd).map f).sum := by
    intro l
    induction l with
    | nil => intro hl; simp at hl
    | cons p l ih =>
        intro hl
        by_cases hpk : p.1 = k
        · obtain ⟨j, u⟩ := p
          obtain rfl : j = k := hpk
          have huv : u = v := by simpa using hl
          subst huv
          simp [setEntries, add_left_comm]
        · have hl' : l.lookup k = some v := by
            rwa [lookup_cons_ite, if_neg (Ne.symm hpk)] at hl
          simp only [setEntries, if_neg hpk, List.map_cons, List.sum_cons]
          rw [add_left_comm, ih hl', add_left_comm]
  exact key d.entries h

end Sums

/-- One more element under a key is one more element. -/
theorem sum_length_push (d : Dict κ (List ν)) (k : κ) (v : ν) :
    ((d.push k v).values.map List.length).sum = (d.values.map List.length).sum + 1 := by
  rw [push, getList]
  cases h : d.get? k with
  | none => simp [values_set_of_not_mem _ (get?_eq_none_iff.1 h)]
  | some l =>
      have hset := sum_values_set (w := l ++ [v]) List.length h
      rw [List.length_append, List.length_singleton] at hset
      rw [Option.getD_some]
      omega

/-- A list has as many elements as there are under all the keys. -/
theorem sum_length_group {α : Type*} (key : α → κ) (f : α → ν) (l : List α) :
    ((group key f l).values.map List.length).sum = l.length := by
  have hfold : ∀ (l : List α) (d : Dict κ (List ν)),
      ((l.foldl (fun d a => d.push (key a) (f a)) d).values.map List.length).sum =
        (d.values.map List.length).sum + l.length := by
    intro l
    induction l with
    | nil => exact fun d => rfl
    | cons a l ih =>
        intro d
        rw [List.foldl_cons, ih, sum_length_push, List.length_cons]
        omega
  have htotal := hfold l empty
  rwa [values_empty, List.map_nil, List.sum_nil, Nat.zero_add] at htotal

end Dict
