/-
**The files of candles and of ticks, byte by byte.**

A file of candles is made of records of six words, and one of ticks of records of five; what is left
at the end is ignored.  Every list of bytes is such a file, of exactly one list of records, and is
read as these records are, in their order; of the records of candles those without prices are left
out.  So a file that is cut off anywhere gives the first of its candles or ticks, and no other.

Main definitions:

* `Bi5Records.m1Format`, `Bi5Records.tickFormat` — the formats;
* `Bi5Records.rowOf`, `Bi5Records.tickOf` — what a record is read as.

Main results:

* `Bi5Records.files_read` — what the files are read as;
* `Bi5Records.files_cut_off` — files that are cut off, and files one after the other.
-/

import Brokerage.Bi5Range
import Brokerage.Records

set_option relaxedAutoImplicit false
set_option autoImplicit false

namespace Bi5Records

open Bi5Range (M1Row RECORD_SIZE_M1 decodeBi5M1)
open Bi5Ticks (TICK_SIZE bigEndian decodeTicks minuteOf ticksOf)
open Records (Words toBytes)

/-! ### The formats -/

/-- A candle: the seconds of the day, the four prices, and the volume. -/
def m1Format : Records.Format UInt8 (Words 6 4) :=
  Records.words 6 4 (Nat.succ_pos 5) (Nat.succ_pos 3)

/-- A tick: the milliseconds of the hour, the ask, the bid, and two volumes. -/
def tickFormat : Records.Format UInt8 (Words 5 4) :=
  Records.words 5 4 (Nat.succ_pos 4) (Nat.succ_pos 3)

/-- What the record of a candle is read as, unless it has no prices. -/
def rowOf (volumeOf : List UInt8 → ℚ) (scale : ℚ) (dayEpochUtc : ℤ) (r : Words 6 4) :
    Option M1Row :=
  if r 1 = 0 ∧ r 2 = 0 then none
  else
    some
      { tsUtc := dayEpochUtc + (r 0 : ℕ)
        open_ := (r 1 : ℕ) / scale
        high := (r 2 : ℕ) / scale
        low := (r 3 : ℕ) / scale
        close := (r 4 : ℕ) / scale
        vol := volumeOf (toBytes 4 (r 5)) }

/-- What the record of a tick is read as. -/
def tickOf (hourEpochMs : ℤ) (scale : ℚ) (r : Words 5 4) : ℤ × ℚ :=
  (minuteOf hourEpochMs (r 0 : ℕ), (r 2 : ℕ) / scale)

/-! ### Reading records -/

/-- A word of a piece is nothing, as the code reads it. -/
theorem decodeWords_eq_zero {m : ℕ} (chunk : List UInt8) (i : Fin m) :
    bigEndian ((chunk.drop (4 * i)).take 4) = 0 ↔ Records.decodeWords m 4 chunk i = 0 :=
  (Fin.ext_iff (a := Records.decodeWords m 4 chunk i) (b := 0)).symm

/-- The last four bytes of a piece are those of its last word. -/
theorem toBytes_volume {chunk : List UInt8} (h : chunk.length = RECORD_SIZE_M1) :
    toBytes 4 (Records.decodeWords 6 4 chunk 5) = (chunk.drop 20).take 4 := by
  have hlength : ((chunk.drop 20).take 4).length = 4 := by
    rw [List.length_take, List.length_drop, h, RECORD_SIZE_M1]
    rfl
  have hbytes := Records.toBytes_ofBytes ((chunk.drop 20).take 4)
  rw [hlength] at hbytes
  exact hbytes

theorem rowOf_decodeWords (volumeOf : List UInt8 → ℚ) (scale : ℚ) (dayEpochUtc : ℤ)
    {chunk : List UInt8} (h : chunk.length = RECORD_SIZE_M1) :
    (let field := fun k => bigEndian ((chunk.drop (4 * k)).take 4)
      if field 1 = 0 ∧ field 2 = 0 then none
      else some (
        { tsUtc := dayEpochUtc + field 0
          open_ := field 1 / scale
          high := field 2 / scale
          low := field 3 / scale
          close := field 4 / scale
          vol := volumeOf ((chunk.drop 20).take 4) } : M1Row)) =
      rowOf volumeOf scale dayEpochUtc (Records.decodeWords 6 4 chunk) := by
  rw [rowOf, toBytes_volume h]
  exact if_congr (and_congr (decodeWords_eq_zero chunk (1 : Fin 6))
    (decodeWords_eq_zero chunk (2 : Fin 6))) rfl rfl

/-- The candles of a file are those of its records. -/
theorem decodeBi5M1_eq (volumeOf : List UInt8 → ℚ) (scale : ℚ) (l : List UInt8) (dayEpochUtc : ℤ) :
    decodeBi5M1 volumeOf scale l dayEpochUtc =
      (m1Format.parse l).filterMap (rowOf volumeOf scale dayEpochUtc) := by
  obtain ⟨tail, -, hsize, -⟩ := Records.exists_chunks m1Format.size_pos l
  rw [Records.Format.parse, List.filterMap_map, Records.chunks, List.filterMap_map, decodeBi5M1]
  refine List.filterMap_congr fun i hi => ?_
  refine rowOf_decodeWords volumeOf scale dayEpochUtc (hsize _ ?_)
  exact List.mem_map_of_mem hi

/-- The ticks of a file are those of its records. -/
theorem decodeTicks_eq (l : List UInt8) (hourEpochMs : ℤ) (scale : ℚ) :
    decodeTicks l hourEpochMs scale = (tickFormat.parse l).map (tickOf hourEpochMs scale) := by
  rw [decodeTicks, ticksOf, Records.Format.parse, Records.chunks, List.map_map, List.map_map,
    List.map_map]
  rfl

/-! ### Files -/

/-- Every list of bytes is a file of candles, and one of ticks, of exactly one list of records and a
remainder that is too short for one, and is read as what its records are read as. -/
theorem files_read (l : List UInt8) :
    (∃! rs : List (Words 6 4),
      (∃ tail, tail.length < RECORD_SIZE_M1 ∧ l = m1Format.print rs ++ tail) ∧
      ∀ volumeOf scale dayEpochUtc, decodeBi5M1 volumeOf scale l dayEpochUtc =
        rs.filterMap (rowOf volumeOf scale dayEpochUtc)) ∧
    ∃! rs : List (Words 5 4),
      (∃ tail, tail.length < TICK_SIZE ∧ l = tickFormat.print rs ++ tail) ∧
      ∀ hourEpochMs scale, decodeTicks l hourEpochMs scale =
        rs.map (tickOf hourEpochMs scale) := by
  refine ⟨⟨m1Format.parse l, ⟨m1Format.parse_eq_iff.1 rfl, fun volumeOf scale day =>
      decodeBi5M1_eq volumeOf scale l day⟩, ?_⟩,
    ⟨tickFormat.parse l, ⟨tickFormat.parse_eq_iff.1 rfl, fun hour scale =>
      decodeTicks_eq l hour scale⟩, ?_⟩⟩
  · rintro rs ⟨hfile, -⟩
    exact (m1Format.parse_eq_iff.2 hfile).symm
  · rintro rs ⟨hfile, -⟩
    exact (tickFormat.parse_eq_iff.2 hfile).symm

/-- A file that is cut off anywhere is read as the first of its candles or ticks; and what follows a
file without a remainder is read after it. -/
theorem files_cut_off (volumeOf : List UInt8 → ℚ) (scale : ℚ) (epoch : ℤ) (l more : List UInt8) :
    decodeBi5M1 volumeOf scale l epoch <+: decodeBi5M1 volumeOf scale (l ++ more) epoch ∧
      decodeTicks l epoch scale <+: decodeTicks (l ++ more) epoch scale ∧
      (RECORD_SIZE_M1 ∣ l.length → decodeBi5M1 volumeOf scale (l ++ more) epoch =
        decodeBi5M1 volumeOf scale l epoch ++ decodeBi5M1 volumeOf scale more epoch) ∧
      (TICK_SIZE ∣ l.length → decodeTicks (l ++ more) epoch scale =
        decodeTicks l epoch scale ++ decodeTicks more epoch scale) := by
  have hprefix := List.prefix_append l more
  simp only [decodeBi5M1_eq, decodeTicks_eq]
  refine ⟨(m1Format.parse_prefix hprefix).filterMap _, (tickFormat.parse_prefix hprefix).map _,
    fun hdvd => ?_, fun hdvd => ?_⟩
  · rw [m1Format.parse_append hdvd, List.filterMap_append]
  · rw [tickFormat.parse_append hdvd, List.map_append]

end Bi5Records
