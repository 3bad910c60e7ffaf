/-
**Records of a fixed size in a list of bytes.**

A file of records is read in pieces of one size; what is left at its end is ignored.  Where each
record has one encoding, and every piece is one, the files and the lists of records with a remainder
are the same.  So a part of a file, from its beginning, is read as a part of its records.

Main definitions:

* `Records.chunks` — the pieces of a list;
* `Records.ofBytes`, `Records.toBytes` — unsigned integers, the most significant byte first;
* `Records.Format` — records with an encoding of a fixed size; `Records.words` — records of words.

Main results:

* `Records.Format.parse_eq_iff` — which files are read as some records;
* `Records.Format.parse_append`, `Records.Format.parse_prefix` — files one after the other, and the
  beginning of a file.
-/

import Mathlib

set_option relaxedAutoImplicit false
set_option autoImplicit false

namespace Records

/-! ### Pieces -/

section Pieces

variable {α : Type*}

/-- The pieces of a list that have the given size. -/
def chunks (n : ℕ) (l : List α) : List (List α) :=
  (List.range (l.length / n)).map fun i => (l.drop (i * n)).take n

theorem chunks_of_lt {n : ℕ} {l : List α} (h : l.length < n) : chunks n l = [] := by
  rw [chunks, Nat.div_eq_of_lt h]
  rfl

theorem chunks_append {n : ℕ} (hn : 0 < n) {c : List α} (hc : c.length = n) (l : List α) :
    chunks n (c ++ l) = c :: chunks n l := by
  have hcount : (c ++ l).length / n = l.length / n + 1 := by
    rw [List.length_append, hc, Nat.add_comm, Nat.add_div_right _ hn]
  rw [chunks, chunks, hcount, List.range_succ_eq_map, List.map_cons, List.map_map]
  refine congrArg₂ _ ?_ (List.map_congr_left fun i _ => ?_)
  · rw [Nat.zero_mul, List.drop_zero, List.take_append_of_le_length hc.ge,
      List.take_of_length_le hc.le]
  · have hskip : (i + 1) * n = c.length + i * n := by rw [hc, Nat.succ_mul, Nat.add_comm]
    change ((c ++ l).drop ((i + 1) * n)).take n = _
    rw [hskip, List.drop_length_add_append]

/-- Pieces of the size, and a remainder, are taken apart again. -/
theorem chunks_flatten_append {n : ℕ} (hn : 0 < n) {cs : List (List α)}
    (hcs : ∀ c ∈ cs, c.length = n) {tail : List α} (htail : tail.length < n) :
    chunks n (cs.flatten ++ tail) = cs := by
  induction cs with
  | nil => exact chunks_of_lt htail
  | cons c cs ih =>
      rw [List.flatten_cons, List.append_assoc, chunks_append hn (hcs c List.mem_cons_self),
        ih fun c' hc' => hcs c' (List.mem_cons_of_mem _ hc')]

/-- Every list has its pieces, and a remainder. -/
theorem exists_chunks {n : ℕ} (hn : 0 < n) (l : List α) :
    ∃ tail, tail.length < n ∧ (∀ c ∈ chunks n l, c.length = n) ∧
      l = (chunks n l).flatten ++ tail := by
  induction hlen : l.length using Nat.strong_induction_on generalizing l with
  | _ k ih =>
      by_cases hlt : l.length < n
      · refine ⟨l, hlt, fun c hc => ?_, ?_⟩
        · rw [chunks_of_lt hlt] at hc
          cases hc
        · rw [chunks_of_lt hlt]
          rfl
      · have htake : (l.take n).length = n := by
          rw [List.length_take, Nat.min_eq_left (not_lt.1 hlt)]
        obtain ⟨tail, htail, hsize, heq⟩ := ih (l.drop n).length
          (by rw [List.length_drop]; omega) (l.drop n) rfl
        have hchunks : chunks n l = l.take n :: chunks n (l.drop n) := by
          conv_lhs => rw [← List.take_append_drop n l]
          exact chunks_append hn htake _
        refine ⟨tail, htail, fun c hc => ?_, ?_⟩
        · rw [hchunks] at hc
          rcases List.mem_cons.1 hc with rfl | hc
          · exact htake
          · exact hsize c hc
        · rw [hchunks, List.flatten_cons, List.append_assoc, ← heq, List.take_append_drop]

end Pieces

/-! ### Words -/

/-- An unsigned integer, the most significant byte first. -/
def ofBytes (bytes : List UInt8) : ℕ := bytes.foldl (fun n b => 256 * n + b.toNat) 0

/-- The given number of bytes of an unsigned integer, the most significant byte first. -/
def toBytes : ℕ → ℕ → List UInt8
  | 0, _ => []
  | k + 1, n => toBytes k (n / 256) ++ [UInt8.ofNat n]

@[simp] theorem length_toBytes (k n : ℕ) : (toBytes k n).length = k := by
  induction k generalizing n with
  | zero => rfl
  | succ k ih => rw [toBytes, List.length_append, ih, List.length_singleton]

theorem ofBytes_concat (bytes : List UInt8) (b : UInt8) :
    ofBytes (bytes ++ [b]) = 256 * ofBytes bytes + b.toNat := by
  rw [ofBytes, List.foldl_append]
  rfl

theorem ofBytes_lt (bytes : List UInt8) : ofBytes bytes < 256 ^ bytes.length := by
  induction bytes using List.reverseRecOn with
  | nil => exact Nat.one_pos
  | append_singleton bytes b ih =>
      have hb : b.toNat < 256 := b.toNat_lt
      rw [ofBytes_concat, List.length_append, List.length_singleton, pow_succ]
      omega

theorem ofBytes_toBytes {k n : ℕ} (h : n < 256 ^ k) : ofBytes (toBytes k n) = n := by
  induction k generalizing n with
  | zero =>
      rw [pow_zero] at h
      have hn : n = 0 := by omega
      rw [hn]
      rfl
  | succ k ih =>
      rw [pow_succ] at h
      have hmod : (UInt8.ofNat n).toNat = n % 256 := UInt8.toNat_ofNat' ..
      rw [toBytes, ofBytes_concat, ih (by omega), hmod]
      omega

theorem toBytes_ofBytes (bytes : List UInt8) : toBytes bytes.length (ofBytes bytes) = bytes := by
  induction bytes using List.reverseRecOn with
  | nil => rfl
  | append_singleton bytes b ih =>
      have hb : b.toNat < 256 := b.toNat_lt
      have hdiv : (256 * ofBytes bytes + b.toNat) / 256 = ofBytes bytes := by omega
      have hlast : UInt8.ofNat (256 * ofBytes bytes + b.toNat) = b := by
        apply UInt8.toNat_inj.1
        rw [UInt8.toNat_ofNat']
        omega
      rw [List.length_append, List.length_singleton, ofBytes_concat, toBytes, hdiv, ih, hlast]

/-! ### Formats -/

/-- Records with an encoding of a fixed size, such that everything of the size is an encoding. -/
structure Format (α ρ : Type*) where
  size : ℕ
  size_pos : 0 < size
  encode : ρ → List α
  decode : List α → ρ
  length_encode : ∀ r, (encode r).length = size
  decode_encode : ∀ r, decode (encode r) = r
  encode_decode : ∀ l : List α, l.length = size → encode (decode l) = l

namespace Format

variable {α ρ : Type*} (f : Format α ρ)

/-- A file of records. -/
def print (rs : List ρ) : List α := rs.flatMap f.encode

/-- The records of a file. -/
def parse (l : List α) : List ρ := (chunks f.size l).map f.decode

theorem parse_print_append (rs : List ρ) {tail : List α} (htail : tail.length < f.size) :
    f.parse (f.print rs ++ tail) = rs := by
  have hsize : ∀ c ∈ rs.map f.encode, c.length = f.size := by
    intro c hc
    obtain ⟨r, -, rfl⟩ := List.mem_map.1 hc
    exact f.length_encode r
  have hprint : f.print rs = (rs.map f.encode).flatten := List.flatMap_def ..
  rw [parse, hprint, chunks_flatten_append f.size_pos hsize htail, List.map_map]
  exact (List.map_congr_left fun r _ => f.decode_encode r).trans (List.map_id rs)

/-- A file is read as some records exactly if it is made of them, and of a remainder. -/
theorem parse_eq_iff {l : List α} {rs : List ρ} :
    f.parse l = rs ↔ ∃ tail, tail.length < f.size ∧ l = f.print rs ++ tail := by
  constructor
  · rintro rfl
    obtain ⟨tail, htail, hsize, heq⟩ := exists_chunks f.size_pos l
    refine ⟨tail, htail, ?_⟩
    have hprint : f.print (f.parse l) = (chunks f.size l).flatten := by
      rw [print, parse, List.flatMap_map, List.flatMap_def]
      refine congrArg List.flatten ?_
      exact (List.map_congr_left fun c hc => f.encode_decode c (hsize c hc)).trans (List.map_id _)
    rw [hprint]
    exact heq
  · rintro ⟨tail, htail, rfl⟩
    exact f.parse_print_append rs htail

theorem length_print (rs : List ρ) : (f.print rs).length = rs.length * f.size := by
  induction rs with
  | nil => rw [List.length_nil, Nat.zero_mul]; rfl
  | cons r rs ih =>
      rw [print] at ih ⊢
      rw [List.flatMap_cons, List.length_append, ih, f.length_encode, List.length_cons,
        Nat.succ_mul, Nat.add_comm]

/-- A file that ends with a record, and another file. -/
theorem parse_append {l : List α} (h : f.size ∣ l.length) (l' : List α) :
    f.parse (l ++ l') = f.parse l ++ f.parse l' := by
  obtain ⟨tail, htail, heq⟩ := f.parse_eq_iff.1 (rfl : f.parse l = f.parse l)
  obtain ⟨tail', htail', heq'⟩ := f.parse_eq_iff.1 (rfl : f.parse l' = f.parse l')
  -- nothing is left at the end of the first
  have hnil : tail = [] := by
    rw [heq, List.length_append, length_print] at h
    rw [← List.length_eq_zero_iff]
    exact Nat.eq_zero_of_dvd_of_lt ((Nat.dvd_add_right (Nat.dvd_mul_left _ _)).1 h) htail
  refine f.parse_eq_iff.2 ⟨tail', htail', ?_⟩
  have happend : f.print (f.parse l ++ f.parse l') = f.print (f.parse l) ++ f.print (f.parse l') :=
    List.flatMap_append
  conv_lhs => rw [heq, heq', hnil, List.append_nil]
  rw [happend, List.append_assoc]

/-- The beginning of a file is read as the first of its records. -/
theorem parse_prefix {l l' : List α} (h : l <+: l') : f.parse l <+: f.parse l' := by
  obtain ⟨more, rfl⟩ := h
  obtain ⟨tail, htail, heq⟩ := f.parse_eq_iff.1 (rfl : f.parse l = f.parse l)
  have hdvd : f.size ∣ (f.print (f.parse l)).length := by
    rw [length_print]
    exact Nat.dvd_mul_left _ _
  have hself : f.parse (f.print (f.parse l)) = f.parse l := by
    have hnil : f.parse (f.print (f.parse l) ++ []) = f.parse l :=
      f.parse_print_append (f.parse l) f.size_pos
    rwa [List.append_nil] at hnil
  have hsplit : l ++ more = f.print (f.parse l) ++ (tail ++ more) := by
    rw [← List.append_assoc, ← heq]
  rw [hsplit, f.parse_append hdvd, hself]
  exact List.prefix_append ..

end Format

/-! ### Records of words -/

/-- A record of some words of some bytes each. -/
abbrev Words (m k : ℕ) : Type := Fin m → Fin (256 ^ k)

theorem ofBytes_take_lt (k : ℕ) (l : List UInt8) : ofBytes (l.take k) < 256 ^ k :=
  (ofBytes_lt _).trans_le (Nat.pow_le_pow_right (by decide) (List.length_take_le k l))

/-- The words of a record. -/
def decodeWords (m k : ℕ) (l : List UInt8) : Words m k :=
  fun i => ⟨ofBytes ((l.drop (k * i)).take k), ofBytes_take_lt k _⟩

/-- The bytes of a record. -/
def encodeWords {m k : ℕ} (r : Words m k) : List UInt8 :=
  (List.ofFn fun i => toBytes k (r i)).flatten

theorem length_encodeWords {m k : ℕ} (r : Words m k) : (encodeWords r).length = m * k := by
  rw [encodeWords, List.length_flatten, List.map_ofFn]
  have hconst : (List.length ∘ fun i => toBytes k (r i)) = fun _ : Fin m => k := by
    funext i
    exact length_toBytes k _
  rw [hconst, List.ofFn_const, List.sum_replicate, smul_eq_mul]

/-- The bytes of a word of a record. -/
theorem take_drop_encodeWords {m k : ℕ} (hk : 0 < k) (r : Words m k) (i : Fin m) :
    ((encodeWords r).drop (k * i)).take k = toBytes k (r i) := by
  have hsize : ∀ c ∈ List.ofFn fun i => toBytes k (r i), c.length = k := by
    intro c hc
    obtain ⟨j, rfl⟩ := List.mem_ofFn.1 hc
    exact length_toBytes k _
  have hempty : ([] : List UInt8).length < k := hk
  have hchunks := chunks_flatten_append hk hsize hempty
  rw [List.append_nil] at hchunks
  have hlength := length_encodeWords r
  rw [encodeWords] at hlength ⊢
  rw [chunks, hlength, Nat.mul_div_cancel _ hk] at hchunks
  have hget := congrArg (fun cs => cs[(i : ℕ)]?) hchunks
  simp only [List.getElem?_map, List.getElem?_range i.isLt, Option.map_some,
    List.getElem?_ofFn, i.isLt, dif_pos] at hget
  rw [Nat.mul_comm]
  exact Option.some.inj hget

theorem decodeWords_encodeWords {m k : ℕ} (hk : 0 < k) (r : Words m k) :
    decodeWords m k (encodeWords r) = r := by
  funext i
  refine Fin.ext ?_
  rw [decodeWords]
  dsimp only
  rw [take_drop_encodeWords hk, ofBytes_toBytes (r i).isLt]

theorem encodeWords_decodeWords {m k : ℕ} (hk : 0 < k) {l : List UInt8} (h : l.length = m * k) :
    encodeWords (decodeWords m k l) = l := by
  obtain ⟨tail, htail, hsize, heq⟩ := exists_chunks hk l
  have hpieces : (List.ofFn fun i => toBytes k (decodeWords m k l i)) = chunks k l := by
    refine List.ext_getElem ?_ fun i hi hi' => ?_
    · rw [List.length_ofFn, chunks, List.length_map, List.length_range, h, Nat.mul_div_cancel _ hk]
    · have hlength := hsize _ (List.getElem_mem hi')
      rw [List.getElem_ofFn]
      have hpiece : (chunks k l)[i] = (l.drop (i * k)).take k := by
        simp [chunks]
      rw [hpiece] at hlength ⊢
      have hbytes := toBytes_ofBytes ((l.drop (i * k)).take k)
      rw [hlength, Nat.mul_comm i k] at hbytes
      rw [Nat.mul_comm i k]
      exact hbytes
  have hall : l = encodeWords (decodeWords m k l) ++ tail := by
    rw [encodeWords, hpieces]
    exact heq
  have hnil : tail = [] := by
    have hlength := congrArg List.length hall
    rw [List.length_append, length_encodeWords, h] at hlength
    exact List.length_eq_zero_iff.1 (by omega)
  rw [hnil, List.append_nil] at hall
  exact hall.symm

theorem words_size_pos {m k : ℕ} (hm : 0 < m) (hk : 0 < k) : 0 < m * k := Nat.mul_pos hm hk

/-- The format of records of words. -/
def words (m k : ℕ) (hm : 0 < m) (hk : 0 < k) : Format UInt8 (Words m k) where
  size := m * k
  size_pos := words_size_pos hm hk
  encode := encodeWords
  decode := decodeWords m k
  length_encode := length_encodeWords
  decode_encode := decodeWords_encodeWords hk
  encode_decode _ h := encodeWords_decodeWords hk h

end Records
