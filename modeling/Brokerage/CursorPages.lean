/-
**Pages of a sorted sequence, followed by a cursor.**

A sequence sorted by a key is served in pages of at most `limit` rows: a page has the first rows
after the cursor, and hands on the key of its last row as the next cursor if it is full and more
rows are said to follow.  Whoever follows the cursors gets a beginning of the sequence, and all of
it exactly when after every full page that is not the last rows more is said to follow.  Nothing in
this module refers to a particular sequence.

Main definitions:

* `CursorPages.Page`, `CursorPages.follow` — a page, and the pages from a cursor on;
* `CursorPages.after` — the rows after a cursor; `CursorPages.lastKey` — the cursor after some rows;
* `CursorPages.Serves` — a way of serving the pages of a sequence;
* `CursorPages.SaysMore` — more is said to follow wherever it does;
* `CursorPages.rank` — how many rows come before a key;
* `CursorPages.Merge` — the sorted merge of two sources.

Main results:

* `CursorPages.follow_serves` — what following the cursors gives;
* `CursorPages.mem_take_iff` — the first rows are those of small rank;
* `CursorPages.take_eq_take` — a subsequence begins like the sequence if what it lacks comes later;
* `CursorPages.Merge.take_eq`, `CursorPages.Merge.length_iff` — what cutting a source off before
  merging does to a page, and to the number of merged rows.
-/

import Mathlib.Data.List.Nodup
import Mathlib.Data.List.Perm.Subperm
import Mathlib.Order.Defs.LinearOrder
import Mathlib.Tactic.Ring

set_option relaxedAutoImplicit false
set_option autoImplicit false

namespace CursorPages

variable {α κ : Type*} [LinearOrder κ] (key : α → κ)

/-! ### Sorted sequences -/

/-- Strictly increasing keys. -/
def Sorted (l : List α) : Prop := l.Pairwise (key · < key ·)

/-- How many rows come before a key. -/
def rank (l : List α) (k : κ) : ℕ := l.countP (key · < k)

variable {key}

theorem Sorted.nodup_keys {l : List α} (h : Sorted key l) : (l.map key).Nodup :=
  List.pairwise_map.2 (h.imp ne_of_lt)

/-- Sorted sequences with the same rows are equal. -/
theorem Sorted.eq_of_mem_iff {l l' : List α} (h : Sorted key l) (h' : Sorted key l')
    (hmem : ∀ x, x ∈ l ↔ x ∈ l') : l = l' := by
  have hperm : l.Perm l' :=
    (List.perm_ext_iff_of_nodup h.nodup_keys.of_map h'.nodup_keys.of_map).2 hmem
  refine hperm.eq_of_pairwise (fun a b _ _ hab hba => ?_) h h'
  exact absurd hab (lt_asymm hba)

/-- Fewer keys give a smaller rank. -/
theorem rank_le_rank {l l' : List α} (h : Sorted key l)
    (hkeys : ∀ x ∈ l, ∃ y ∈ l', key y = key x) (k : κ) : rank key l k ≤ rank key l' k := by
  have hsub : (l.filter (key · < k)).map key ⊆ (l'.filter (key · < k)).map key := by
    intro j hj
    obtain ⟨x, hx, rfl⟩ := List.mem_map.1 hj
    obtain ⟨hxl, hxk⟩ := List.mem_filter.1 hx
    obtain ⟨y, hy, hyx⟩ := hkeys x hxl
    exact List.mem_map.2 ⟨y, List.mem_filter.2 ⟨hy, by rw [hyx]; exact hxk⟩, hyx⟩
  have hnodup : ((l.filter (key · < k)).map key).Nodup :=
    h.nodup_keys.sublist (List.filter_sublist.map key)
  have hle := (hnodup.subperm hsub).length_le
  rwa [List.length_map, List.length_map, ← List.countP_eq_length_filter,
    ← List.countP_eq_length_filter] at hle

/-- The first rows are those of small rank. -/
theorem mem_take_iff {l : List α} (h : Sorted key l) (n : ℕ) (x : α) :
    x ∈ l.take n ↔ x ∈ l ∧ rank key l (key x) < n := by
  induction l generalizing n with
  | nil => simp
  | cons a l ih =>
      obtain ⟨hhead, htail⟩ := List.pairwise_cons.1 h
      cases n with
      | zero => simp
      | succ n =>
          rw [List.take_succ_cons, List.mem_cons, List.mem_cons, ih htail]
          by_cases hxa : x = a
          · subst hxa
            have hrank : rank key (x :: l) (key x) = 0 := by
              refine List.countP_eq_zero.2 fun y hy => ?_
              rcases List.mem_cons.1 hy with rfl | hy
              · simp
              · simpa using (hhead y hy).le
            simp [hrank]
          · simp only [hxa, false_or]
            refine and_congr_right fun hx => ?_
            have hlt := hhead x hx
            simp [rank, hlt]

/-- What is left out of the first rows comes after that many rows. -/
theorem le_rank_take {l : List α} (h : Sorted key l) {n : ℕ} {x : α} (hx : x ∈ l)
    (hnot : x ∉ l.take n) : n ≤ rank key (l.take n) (key x) := by
  induction l generalizing n with
  | nil => exact absurd hx List.not_mem_nil
  | cons a l ih =>
      obtain ⟨hhead, htail⟩ := List.pairwise_cons.1 h
      cases n with
      | zero => exact Nat.zero_le _
      | succ n =>
          rw [List.take_succ_cons, List.mem_cons, not_or] at hnot
          have hxl : x ∈ l := (List.mem_cons.1 hx).resolve_left hnot.1
          have hrest := ih htail hxl hnot.2
          rw [List.take_succ_cons, rank, List.countP_cons_of_pos (by simpa using hhead x hxl)]
          exact Nat.succ_le_succ hrest

/-- If a sequence has more than `n` rows and the keys of the first `n` are among those of `n` rows,
then these are keys of the sequence. -/
theorem exists_key_of_take {p block : List α} {n : ℕ} (hp : Sorted key p) {y : α} (hy : y ∈ p)
    (hcut : y ∉ p.take n) (hblock : block.length = n)
    (hkeys : ∀ q ∈ p.take n, ∃ x ∈ block, key x = key q) :
    ∀ x ∈ block, ∃ q ∈ p, key q = key x := by
  intro x hx
  have hlen : (p.take n).length = n := by
    have hle := le_rank_take hp hy hcut
    have hcount : rank key (p.take n) (key y) ≤ (p.take n).length := List.countP_le_length
    have := List.length_take_le n p
    omega
  have hsub : (p.take n).map key ⊆ block.map key := by
    intro k hk
    obtain ⟨q, hq, rfl⟩ := List.mem_map.1 hk
    obtain ⟨x', hx', hqx⟩ := hkeys q hq
    exact List.mem_map.2 ⟨x', hx', hqx⟩
  -- as many keys as the rows have, and all different
  have hfirst : Sorted key (p.take n) := hp.sublist (List.take_sublist n p)
  have hperm := (hfirst.nodup_keys.subperm hsub).perm_of_length_le
    (by rw [List.length_map, List.length_map, hlen, hblock])
  obtain ⟨q, hq, hqx⟩ := List.mem_map.1 (hperm.mem_iff.2 (List.mem_map_of_mem hx))
  exact ⟨q, List.mem_of_mem_take hq, hqx⟩

/-- A subsequence begins like the sequence if what it lacks comes after that many of its rows. -/
theorem take_eq_take {l m : List α} (hsub : l.Sublist m) (hm : Sorted key m) (n : ℕ)
    (hlack : ∀ x ∈ m, x ∉ l → n ≤ rank key l (key x)) : l.take n = m.take n := by
  induction hsub generalizing n with
  | slnil => rfl
  | @cons l m a hsub ih =>
      obtain ⟨hhead, htail⟩ := List.pairwise_cons.1 hm
      -- nothing comes before the row that is lacking
      have hrank : rank key l (key a) = 0 := by
        refine List.countP_eq_zero.2 fun y hy => ?_
        simpa using (hhead y (hsub.subset hy)).le
      have hnot : a ∉ l := fun ha => lt_irrefl _ (hhead a (hsub.subset ha))
      have hn : n = 0 := Nat.le_zero.1 (hrank ▸ hlack a List.mem_cons_self hnot)
      rw [hn, List.take_zero, List.take_zero]
  | @cons_cons l m a hsub ih =>
      obtain ⟨hhead, htail⟩ := List.pairwise_cons.1 hm
      cases n with
      | zero => rfl
      | succ n =>
          rw [List.take_succ_cons, List.take_succ_cons]
          congr 1
          refine ih htail n fun x hx hnot => ?_
          have hxa : x ≠ a := fun h => lt_irrefl (key a) (h ▸ hhead x hx)
          have hle := hlack x (List.mem_cons_of_mem _ hx)
            (fun h => (List.mem_cons.1 h).elim hxa hnot)
          rw [rank, List.countP_cons_of_pos (by simpa using hhead x hx)] at hle
          exact Nat.le_of_succ_le_succ hle

/-! ### Cursors -/

variable (key) in
/-- The cursor after some rows. -/
def lastKey (rows : List α) : Option κ := rows.getLast?.map key

variable (key) in
/-- The rows after a cursor. -/
def after (cursor : Option κ) (rows : List α) : List α :=
  rows.filter fun x => match cursor with
    | none => true
    | some k => k < key x

theorem Sorted.after {rows : List α} (h : Sorted key rows) (cursor : Option κ) :
    Sorted key (after key cursor rows) := List.Pairwise.filter _ h

/-- After the cursor of a beginning comes the rest. -/
theorem after_lastKey {pre rest : List α} (h : Sorted key (pre ++ rest)) :
    after key (lastKey key pre) (pre ++ rest) = rest := by
  obtain rfl | ⟨pre, a, rfl⟩ := List.eq_nil_or_concat' pre
  · simp [after, lastKey]
  · have hlast : lastKey key (pre ++ [a]) = some (key a) := by simp [lastKey]
    obtain ⟨hpre, -, hcross⟩ := List.pairwise_append.1 h
    obtain ⟨-, -, hbefore⟩ := List.pairwise_append.1 hpre
    rw [after, hlast, List.filter_append, List.filter_eq_nil_iff.2, List.nil_append,
      List.filter_eq_self.2]
    · intro x hx
      simpa using hcross a (by simp) x hx
    · intro x hx
      rcases List.mem_append.1 hx with hx | hx
      · simpa using (hbefore x hx a (by simp)).le
      · simp [List.mem_singleton.1 hx]

/-! ### Merging two sources -/

variable (key) in
/-- The sorted merge of two sources, of which the second wins on equal keys. -/
structure Merge (p v rows : List α) : Prop where
  sorted : Sorted key rows
  mem_iff : ∀ x, x ∈ rows ↔ x ∈ v ∨ x ∈ p ∧ ∀ y ∈ v, key y ≠ key x

theorem Merge.unique {p v rows rows' : List α} (h : Merge key p v rows)
    (h' : Merge key p v rows') : rows = rows' :=
  h.sorted.eq_of_mem_iff h'.sorted fun x => (h.mem_iff x).trans (h'.mem_iff x).symm

/-- Every row of the first source has its key in the merge. -/
theorem Merge.exists_key {p v rows : List α} (h : Merge key p v rows) {x : α} (hx : x ∈ p) :
    ∃ y ∈ rows, key y = key x := by
  by_cases hv : ∃ y ∈ v, key y = key x
  · obtain ⟨y, hy, hyx⟩ := hv
    exact ⟨y, (h.mem_iff y).2 (Or.inl hy), hyx⟩
  · exact ⟨x, (h.mem_iff x).2 (Or.inr ⟨hx, fun y hy hyx => hv ⟨y, hy, hyx⟩⟩), rfl⟩

/-- What comes after a cursor is merged from what comes after it in the sources. -/
theorem Merge.after {p v rows : List α} (h : Merge key p v rows) (cursor : Option κ) :
    Merge key (after key cursor p) (after key cursor v) (after key cursor rows) := by
  refine ⟨h.sorted.after cursor, fun x => ?_⟩
  simp only [CursorPages.after, List.mem_filter, h.mem_iff]
  constructor
  · rintro ⟨hx | ⟨hx, hother⟩, hafter⟩
    · exact Or.inl ⟨hx, hafter⟩
    · exact Or.inr ⟨⟨hx, hafter⟩, fun y hy => hother y hy.1⟩
  · rintro (⟨hx, hafter⟩ | ⟨⟨hx, hafter⟩, hother⟩)
    · exact ⟨Or.inl hx, hafter⟩
    · refine ⟨Or.inr ⟨hx, fun y hy hyx => hother y ⟨hy, ?_⟩ hyx⟩, hafter⟩
      cases cursor with
      | none => exact hafter
      | some k => simpa [hyx] using hafter

section Truncated

variable {p v m b : List α} {n : ℕ} (hp : Sorted key p) (hm : Merge key p v m)
  (hb : Merge key (p.take n) v b)

include hp hm hb

/-- What is lacking when the first source is cut off comes after that many merged rows. -/
theorem Merge.le_rank {x : α} (hx : x ∈ m) (hnot : x ∉ b) : n ≤ rank key b (key x) := by
  rcases (hm.mem_iff x).1 hx with hv | ⟨hxp, hother⟩
  · exact absurd ((hb.mem_iff x).2 (Or.inl hv)) hnot
  · have hcut : x ∉ p.take n := fun h => hnot ((hb.mem_iff x).2 (Or.inr ⟨h, hother⟩))
    calc n ≤ rank key (p.take n) (key x) := le_rank_take hp hxp hcut
      _ ≤ rank key b (key x) :=
        rank_le_rank (hp.sublist (List.take_sublist n p)) (fun y hy => hb.exists_key hy) _

omit hp in
theorem Merge.mem_of_cut {x : α} (hx : x ∈ b) : x ∈ m := by
  rcases (hb.mem_iff x).1 hx with hv | ⟨hxp, hother⟩
  · exact (hm.mem_iff x).2 (Or.inl hv)
  · exact (hm.mem_iff x).2 (Or.inr ⟨List.mem_of_mem_take hxp, hother⟩)

omit hp in
theorem Merge.sublist_of_cut [DecidableEq α] : b.Sublist m := by
  have heq : b = m.filter (· ∈ b) := by
    refine hb.sorted.eq_of_mem_iff (hm.sorted.filter _) fun x => ?_
    rw [List.mem_filter, decide_eq_true_eq]
    exact ⟨fun hx => ⟨hm.mem_of_cut hb hx, hx⟩, fun hx => hx.2⟩
  rw [heq]
  exact List.filter_sublist

/-- Cutting the first source off after a page does not change the page. -/
theorem Merge.take_eq [DecidableEq α] : b.take n = m.take n :=
  take_eq_take (hm.sublist_of_cut hb) hm.sorted n fun _ hx hnot => hm.le_rank hp hb hx hnot

/-- With the first source cut off after a page, the merge shows that rows follow a full page just
if the page has a row of the second source alone, or such a row follows. -/
theorem Merge.length_iff [DecidableEq α] {block post : List α} (hsplit : m = block ++ post)
    (hblock : block.length = n) (hpost : post ≠ []) :
    n < b.length ↔ (∃ x ∈ block, ∀ q ∈ p, key q ≠ key x) ∨ ∃ x ∈ post, x ∈ v := by
  have htake : b.take n = block := by
    rw [hm.take_eq hp hb, hsplit, List.take_append_of_le_length hblock.ge,
      List.take_of_length_le hblock.le]
  obtain ⟨hsorted, -, hcross⟩ := List.pairwise_append.1 (hsplit ▸ hm.sorted)
  constructor
  · intro hlong
    by_contra hno
    rw [not_or] at hno
    obtain ⟨hkeys, hnov⟩ := hno
    -- some merged row follows the page: it is of the first source, and in its first rows
    have hex : ∃ y ∈ b, y ∉ block := by
      by_contra hall
      have hsub : b ⊆ block := fun y hy => by
        by_contra hyb
        exact hall ⟨y, hy, hyb⟩
      have hle := (hb.sorted.nodup_keys.of_map.subperm hsub).length_le
      omega
    obtain ⟨y, hy, hyb⟩ := hex
    have hym : y ∈ post := by
      have hym := hm.mem_of_cut hb hy
      rw [hsplit] at hym
      exact (List.mem_append.1 hym).resolve_left hyb
    have hyp : y ∈ p.take n := by
      rcases (hb.mem_iff y).1 hy with hv | ⟨hyp, -⟩
      · exact absurd ⟨y, hym, hv⟩ hnov
      · exact hyp
    -- but all the rows of the page have their keys in the first source before it
    have hrank : n ≤ rank key p (key y) := by
      have hfull : rank key block (key y) = n := by
        rw [← hblock]
        exact List.countP_eq_length.2 fun x hx => by simpa using hcross x hx y hym
      rw [← hfull]
      refine rank_le_rank hsorted (fun x hx => ?_) _
      by_contra hnone
      exact hkeys ⟨x, hx, fun q hq hqx => hnone ⟨q, hq, hqx⟩⟩
    exact absurd ((mem_take_iff hp n y).1 hyp).2 (not_lt.2 hrank)
  · intro hcond
    have hge : n ≤ b.length := by
      rw [← hblock, ← htake]
      exact List.length_take_le' _ _
    refine lt_of_le_of_ne hge fun heq => ?_
    -- otherwise the page is all there is
    have hbb : b = block := by rw [← htake, List.take_of_length_le heq.ge]
    have hnotv : ∀ x ∈ post, x ∉ v := by
      intro x hx hv
      have hxb : x ∈ block := hbb ▸ (hb.mem_iff x).2 (Or.inl hv)
      exact lt_irrefl _ (hcross x hxb x hx)
    rcases hcond with ⟨x, hx, hkey⟩ | ⟨x, hx, hv⟩
    · obtain ⟨y, hy⟩ := List.exists_mem_of_ne_nil post hpost
      have hym : y ∈ m := hsplit ▸ List.mem_append_right block hy
      have hother := (hm.mem_iff y).1 hym
      obtain ⟨hyp, hyv⟩ := hother.resolve_left (hnotv y hy)
      have hcut : y ∉ p.take n := by
        intro h
        have hyb : y ∈ block := hbb ▸ (hb.mem_iff y).2 (Or.inr ⟨h, hyv⟩)
        exact lt_irrefl _ (hcross y hyb y hy)
      obtain ⟨q, hq, hqx⟩ := exists_key_of_take hp hyp hcut hblock
        (fun q hq => by
          obtain ⟨x', hx', hqx⟩ := hb.exists_key hq
          exact ⟨x', hbb ▸ hx', hqx⟩) x hx
      exact hkey q hq hqx
    · exact hnotv x hx hv

end Truncated

/-! ### Pages -/

/-- A page: its rows, and the cursor of the next one. -/
structure Page (α κ : Type*) where
  rows : List α
  next : Option κ

/-- The pages from a cursor on, if they end within that many pages. -/
def follow (page : Option κ → Page α κ) : ℕ → Option κ → Option (List (List α))
  | 0, _ => none
  | n + 1, cursor =>
      match (page cursor).next with
      | none => some [(page cursor).rows]
      | some k => (follow page n (some k)).map ((page cursor).rows :: ·)

variable (key) in
/-- The pages of a sequence: at every cursor that its rows can give, the first rows after it, with
the next cursor if the page is full and more rows are said to follow. -/
structure Serves (page : Option κ → Page α κ) (rows : List α) (limit : ℕ)
    (more : Option κ → Bool) : Prop where
  rows_eq : ∀ pre rest, rows = pre ++ rest → (page (lastKey key pre)).rows = rest.take limit
  next_eq : ∀ pre rest, rows = pre ++ rest → (page (lastKey key pre)).next =
    if (rest.take limit).length = limit ∧ more (lastKey key pre) then
      lastKey key (rest.take limit)
    else none

variable (key) in
/-- From some rows on, after every full page that is not the last rows more is said to follow. -/
def SaysMore (more : Option κ → Bool) (limit : ℕ) (pre rest : List α) : Prop :=
  ∀ mid block post, rest = mid ++ (block ++ post) → limit ∣ mid.length → block.length = limit →
    post ≠ [] → more (lastKey key (pre ++ mid)) = true

omit [LinearOrder κ] in
/-- After a full page the same is asked of the rows behind it. -/
theorem saysMore_drop {more : Option κ → Bool} {limit : ℕ} {pre rest : List α}
    (hfull : (rest.take limit).length = limit) (hmore : more (lastKey key pre) = true) :
    SaysMore key more limit (pre ++ rest.take limit) (rest.drop limit) ↔
      SaysMore key more limit pre rest := by
  constructor
  · intro hcond mid block post hmid hdvd hblock hpost
    rcases mid with - | ⟨a, mid'⟩
    · simpa using hmore
    · -- a later block is one of the rest
      set mid := a :: mid' with hmid_def
      have hlimit_le : limit ≤ mid.length := Nat.le_of_dvd (by simp [mid]) hdvd
      have htake : rest.take limit = mid.take limit := by
        rw [hmid, List.take_append_of_le_length hlimit_le]
      have hdrop : rest.drop limit = mid.drop limit ++ (block ++ post) := by
        rw [hmid, List.drop_append_of_le_length hlimit_le]
      have hdvd' : limit ∣ (mid.drop limit).length := by
        rw [List.length_drop]
        exact Nat.dvd_sub hdvd dvd_rfl
      have hlater := hcond (mid.drop limit) block post hdrop hdvd' hblock hpost
      rwa [htake, List.append_assoc, List.take_append_drop] at hlater
  · intro hcond mid block post hmid hdvd hblock hpost
    have hsplit : rest = (rest.take limit ++ mid) ++ (block ++ post) := by
      rw [List.append_assoc, ← hmid, List.take_append_drop]
    have hdvd' : limit ∣ (rest.take limit ++ mid).length := by
      rw [List.length_append, hfull]
      exact Nat.dvd_add dvd_rfl hdvd
    have hlater := hcond _ block post hsplit hdvd' hblock hpost
    rwa [← List.append_assoc] at hlater

omit [LinearOrder κ] in
/-- A page that is not full, or after which no more is said to follow, must have the last rows. -/
theorem take_eq_iff_saysMore {more : Option κ → Bool} {limit : ℕ} {pre rest : List α}
    (hgo : ¬ ((rest.take limit).length = limit ∧ more (lastKey key pre) = true)) :
    rest.take limit = rest ↔ SaysMore key more limit pre rest := by
  constructor
  · intro heq mid block post hmid _ hblock hpost
    have hle : rest.length ≤ limit := by
      rw [← heq]
      exact List.length_take_le _ _
    have hlen := congrArg List.length hmid
    rw [List.length_append, List.length_append, hblock] at hlen
    have hpos := List.length_pos_iff.2 hpost
    omega
  · intro hcond
    by_contra hne
    have hlong : limit < rest.length := by
      by_contra hle
      exact hne (List.take_of_length_le (not_lt.1 hle))
    have hfull : (rest.take limit).length = limit := by
      rw [List.length_take]
      omega
    have hpost : rest.drop limit ≠ [] := by
      rw [Ne, List.drop_eq_nil_iff]
      omega
    -- the page is full and rows follow, so more would be said to follow
    have hmore := hcond [] (rest.take limit) (rest.drop limit)
      (by rw [List.nil_append, List.take_append_drop]) (dvd_zero _) hfull hpost
    rw [List.append_nil] at hmore
    exact hgo ⟨hfull, hmore⟩

omit [LinearOrder κ] in
/-- Following the cursors ends, with pages of at most `limit` rows that make up a beginning of the
sequence, and all of it exactly when more rows are said to follow after every full page that is
not the last rows. -/
theorem follow_serves {page : Option κ → Page α κ} {rows : List α} {limit : ℕ}
    {more : Option κ → Bool} (h : Serves key page rows limit more) (hlimit : 1 ≤ limit) (n : ℕ)
    {pre rest : List α} (hrows : rows = pre ++ rest) (hn : rest.length < n) :
    ∃ pages, follow page n (lastKey key pre) = some pages ∧ (∀ p ∈ pages, p.length ≤ limit) ∧
      pages.flatten <+: rest ∧ (pages.flatten = rest ↔ SaysMore key more limit pre rest) := by
  induction n generalizing pre rest with
  | zero => omega
  | succ n ih =>
      have hpage := h.rows_eq pre rest hrows
      have hnext := h.next_eq pre rest hrows
      rw [follow]
      by_cases hgo : (rest.take limit).length = limit ∧ more (lastKey key pre)
      · -- a full page, and the cursor of its last row
        obtain ⟨hfull, hmore⟩ := hgo
        rw [if_pos ⟨hfull, hmore⟩] at hnext
        have hne : rest.take limit ≠ [] := by
          intro hnil
          rw [hnil, List.length_nil] at hfull
          omega
        have hcursor : lastKey key (pre ++ rest.take limit) = lastKey key (rest.take limit) := by
          rw [lastKey, List.getLast?_append_of_ne_nil _ hne, lastKey]
        obtain ⟨k, hk⟩ : ∃ k, lastKey key (rest.take limit) = some k :=
          ⟨_, by rw [lastKey, List.getLast?_eq_some_getLast hne]; rfl⟩
        have hlen : (rest.drop limit).length < n := by
          rw [List.length_take] at hfull
          rw [List.length_drop]
          omega
        have hsplit : rows = (pre ++ rest.take limit) ++ rest.drop limit := by
          rw [List.append_assoc, List.take_append_drop]
          exact hrows
        obtain ⟨pages, hpages, hle, hprefix, hall⟩ := ih hsplit hlen
        rw [hcursor, hk] at hpages
        rw [hnext, hk, hpage]
        dsimp only
        rw [hpages]
        refine ⟨_, rfl, ?_, ?_, ?_⟩
        · rintro p hp
          rcases List.mem_cons.1 hp with rfl | hp
          · exact List.length_take_le _ _
          · exact hle p hp
        · rw [List.flatten_cons]
          nth_rewrite 2 [← List.take_append_drop limit rest]
          exact (List.prefix_append_right_inj _).2 hprefix
        · have heq : (rest.take limit :: pages).flatten = rest ↔
              pages.flatten = rest.drop limit := by
            rw [List.flatten_cons]
            nth_rewrite 2 [← List.take_append_drop limit rest]
            exact List.append_right_inj _
          exact heq.trans (hall.trans (saysMore_drop hfull hmore))
      · -- the last page
        rw [if_neg hgo] at hnext
        rw [hnext, hpage]
        refine ⟨_, rfl, ?_, ?_, ?_⟩
        · intro p hp
          rw [List.mem_singleton.1 hp]
          exact List.length_take_le _ _
        · simpa using List.take_prefix limit rest
        · rw [List.flatten_cons, List.flatten_nil, List.append_nil]
          exact take_eq_iff_saysMore hgo

end CursorPages
