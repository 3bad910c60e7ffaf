/-
**The text operations the program applies to symbols and identifiers.**

Symbols, venue names and position identifiers are strings, and several rules of the program are
about their shape: case-insensitive comparison after trimming, prefixes such as `paper:`, the two
numbers of `ostium:{pair_id}:{trade_index}`.  The operations are defined on the list of characters
of a string, so that they compute and so that appending a prefix and removing it can be reasoned
about by the list lemmas.

Letter case and digits are those of ASCII, which is the alphabet of every symbol, venue, mode and
position identifier the program itself makes.  Where the program compares texts that come from
outside in one letter case (symbols, venues, names of headers), other letters are compared as they
are; Python would fold them too.

Main definitions:

* `Text.strip`, `Text.upper`, `Text.lower` — `str.strip`, `str.upper`, `str.lower`;
* `Text.startsWith`, `Text.dropChars` — `str.startswith` and the slice `s[n:]`;
* `Text.splitColon` — `str.split(":")`;
* `Text.toInt?` — the conversion `int(s)`;
* `Text.padded` — the format `{n:0wd}` of a number.

Main results:

* `Text.startsWith_append`, `Text.dropChars_append` — a prefix that was prepended is recognised,
  and dropping it gives back the rest;
* `Text.splitColon_append` — splitting at the first colon;
* `Text.toInt?_toString`, `Text.toInt?_toString_int` — a rendered number is read back.
-/

import Mathlib

set_option relaxedAutoImplicit false
set_option autoImplicit false

namespace Text

/-! ### Trimming and letter case -/

/-- The characters `str.strip` removes. -/
def isSpace (c : Char) : Bool :=
  (9 ≤ c.toNat && c.toNat ≤ 13) || (28 ≤ c.toNat && c.toNat ≤ 32) || c.toNat = 133 ||
    c.toNat = 160 || c.toNat = 0x1680 || (0x2000 ≤ c.toNat && c.toNat ≤ 0x200a) ||
    c.toNat = 0x2028 || c.toNat = 0x2029 || c.toNat = 0x202f || c.toNat = 0x205f ||
    c.toNat = 0x3000

/-- The characters of `str.strip`. -/
def stripChars (l : List Char) : List Char :=
  ((l.dropWhile isSpace).reverse.dropWhile isSpace).reverse

/-- The string without leading and trailing white space. -/
def strip (s : String) : String := String.ofList (stripChars s.toList)

/-- The string with its ASCII letters in upper case. -/
def upper (s : String) : String := String.ofList (s.toList.map Char.toUpper)

/-- The string with its ASCII letters in lower case. -/
def lower (s : String) : String := String.ofList (s.toList.map Char.toLower)

/-! ### Prefixes -/

/-- Whether a string begins with another one. -/
def startsWith (s pre : String) : Bool := pre.toList.isPrefixOf s.toList

/-- The string without its first `n` characters. -/
def dropChars (n : ℕ) (s : String) : String := String.ofList (s.toList.drop n)

@[simp] theorem startsWith_append (pre s : String) : startsWith (pre ++ s) pre = true := by
  rw [startsWith, String.toList_append, List.isPrefixOf_iff_prefix]
  exact List.prefix_append _ _

theorem dropChars_append {n : ℕ} {pre : String} (h : pre.toList.length = n) (s : String) :
    dropChars n (pre ++ s) = s := by
  rw [dropChars, String.toList_append, ← h, List.drop_left, String.ofList_toList]

/-- A letter in upper case stays as it is. -/
theorem toUpper_toUpper (c : Char) : c.toUpper.toUpper = c.toUpper := by
  have hlower : ¬ (c.toUpper.val ≥ 'a'.val ∧ c.toUpper.val ≤ 'z'.val) := by
    rw [Char.toUpper]
    split
    · grind [UInt32.toNat_add, Char.toNat_val]
    · assumption
  rw [Char.toUpper, dif_neg hlower]

theorem upper_upper (s : String) : upper (upper s) = upper s := by
  simp only [upper, String.toList_ofList, List.map_map]
  exact congrArg String.ofList (List.map_congr_left fun c _ => toUpper_toUpper c)

theorem toList_lower (s : String) : (lower s).toList = s.toList.map Char.toLower := by
  rw [lower, String.toList_ofList]

theorem lower_append (s t : String) : lower (s ++ t) = lower s ++ lower t := by
  simp [← String.toList_inj, toList_lower]

/-! ### Splitting -/

/-- The pieces of a list of characters between its colons. -/
def splitColonChars : List Char → List (List Char)
  | [] => [[]]
  | c :: cs =>
      if c = ':' then [] :: splitColonChars cs
      else
        match splitColonChars cs with
        | [] => [[c]]
        | p :: ps => (c :: p) :: ps

/-- The pieces of a string between its colons. -/
def splitColon (s : String) : List String := (splitColonChars s.toList).map String.ofList

theorem splitColonChars_of_not_mem {l : List Char} (h : ':' ∉ l) : splitColonChars l = [l] := by
  induction l with
  | nil => rfl
  | cons c cs ih =>
      simp only [List.mem_cons, not_or] at h
      simp [splitColonChars, Ne.symm h.1, ih h.2]

theorem splitColonChars_append {l : List Char} (h : ':' ∉ l) (r : List Char) :
    splitColonChars (l ++ ':' :: r) = l :: splitColonChars r := by
  induction l with
  | nil => simp [splitColonChars]
  | cons c cs ih =>
      simp only [List.mem_cons, not_or] at h
      simp [splitColonChars, Ne.symm h.1, ih h.2]

/-- Splitting at the first colon. -/
theorem splitColon_append {s : String} (h : ':' ∉ s.toList) (t : String) :
    splitColon (s ++ ":" ++ t) = s :: splitColon t := by
  have hlist : (s ++ ":" ++ t).toList = s.toList ++ ':' :: t.toList := by simp
  rw [splitColon, hlist, splitColonChars_append h, List.map_cons, String.ofList_toList, splitColon]

theorem splitColon_of_not_mem {s : String} (h : ':' ∉ s.toList) : splitColon s = [s] := by
  simp [splitColon, splitColonChars_of_not_mem h]

/-! ### Numbers -/

/-- Reading decimal digits, where single underscores may stand between digits; `afterDigit` says
whether the character before was a digit. -/
def parseDigits : ℕ → Bool → List Char → Option ℕ
  | acc, afterDigit, [] => if afterDigit then some acc else none
  | acc, afterDigit, c :: cs =>
      if c.isDigit then parseDigits (10 * acc + (c.toNat - '0'.toNat)) true cs
      else if c = '_' ∧ afterDigit then parseDigits acc false cs
      else none

/-- The number a string stands for, if it does: white space around it and a sign are allowed. -/
def toInt? (s : String) : Option ℤ :=
  match stripChars s.toList with
  | '-' :: cs => (parseDigits 0 false cs).map fun n => -(n : ℤ)
  | '+' :: cs => (parseDigits 0 false cs).map fun n => (n : ℤ)
  | cs => (parseDigits 0 false cs).map fun n => (n : ℤ)

theorem parseDigits_of_isDigit {l : List Char} (h : ∀ c ∈ l, c.isDigit = true) (acc : ℕ) :
    parseDigits acc true l = some (Nat.ofDigitChars 10 l acc) := by
  induction l generalizing acc with
  | nil => simp [parseDigits]
  | cons c cs ih =>
      have hc := h c List.mem_cons_self
      rw [parseDigits, if_pos hc, ih fun d hd => h d (List.mem_cons_of_mem _ hd),
        Nat.ofDigitChars_cons]

theorem toNat_of_isDigit {c : Char} (h : c.isDigit = true) : 48 ≤ c.toNat ∧ c.toNat ≤ 57 := by
  rw [Char.isDigit, Bool.and_eq_true, decide_eq_true_eq, decide_eq_true_eq] at h
  exact ⟨UInt32.le_iff_toNat_le.1 h.1, UInt32.le_iff_toNat_le.1 h.2⟩

theorem isSpace_of_isDigit {c : Char} (h : c.isDigit = true) : isSpace c = false := by
  have hc := toNat_of_isDigit h
  rw [Bool.eq_false_iff]
  intro hs
  simp only [isSpace, Bool.or_eq_true, Bool.and_eq_true, decide_eq_true_eq] at hs
  omega

/-- Nothing is trimmed off a text without white space. -/
theorem stripChars_of_isSpace {l : List Char} (h : ∀ c ∈ l, isSpace c = false) :
    stripChars l = l := by
  have hdrop : ∀ l : List Char, (∀ c ∈ l, isSpace c = false) → l.dropWhile isSpace = l := by
    intro l hl
    cases l with
    | nil => rfl
    | cons c cs => rw [List.dropWhile_cons_of_neg]; simpa using hl c List.mem_cons_self
  rw [stripChars, hdrop l h, hdrop _ fun c hc => h c (List.mem_reverse.1 hc), List.reverse_reverse]

theorem strip_of_isSpace {s : String} (h : ∀ c ∈ s.toList, isSpace c = false) : strip s = s := by
  rw [strip, stripChars_of_isSpace h, String.ofList_toList]

theorem toList_toString (n : ℕ) : (toString n).toList = Nat.toDigits 10 n := by
  rw [Nat.toString_eq_ofList_toDigits, String.toList_ofList]

theorem isDigit_of_mem_toString {n : ℕ} {c : Char} (h : c ∈ (toString n).toList) :
    c.isDigit = true := by
  rw [toList_toString] at h
  exact Nat.isDigit_of_mem_toDigits (by decide) (by decide) h

theorem colon_not_mem_toString (n : ℕ) : ':' ∉ (toString n).toList := fun h =>
  absurd (isDigit_of_mem_toString h) (by decide)

/-- The digits of a rendered number are read back. -/
theorem parseDigits_toString (n : ℕ) : parseDigits 0 false (toString n).toList = some n := by
  have hdigits := fun c hc => isDigit_of_mem_toString (n := n) (c := c) hc
  cases hl : (toString n).toList with
  | nil => exact absurd (toList_toString n ▸ hl) Nat.toDigits_ne_nil
  | cons d ds =>
      have hd : d.isDigit = true := hdigits d (hl ▸ List.mem_cons_self)
      have hds : ∀ c ∈ ds, c.isDigit = true := fun c hc =>
        hdigits c (hl ▸ List.mem_cons_of_mem _ hc)
      rw [parseDigits, if_pos hd, parseDigits_of_isDigit hds, ← Nat.ofDigitChars_cons, ← hl,
        toList_toString, Nat.ofDigitChars_ten_toDigits]

theorem isSpace_of_mem_toString {n : ℕ} {c : Char} (h : c ∈ (toString n).toList) :
    isSpace c = false :=
  isSpace_of_isDigit (isDigit_of_mem_toString h)

/-- A rendered number is read back. -/
theorem toInt?_toString (n : ℕ) : toInt? (toString n) = some (n : ℤ) := by
  have hstrip := stripChars_of_isSpace fun c hc => isSpace_of_mem_toString (n := n) (c := c) hc
  rw [toInt?, hstrip]
  split
  · rename_i heq
    have hdigit := isDigit_of_mem_toString (heq ▸ List.mem_cons_self)
    exact absurd hdigit (by decide)
  · rename_i heq
    have hdigit := isDigit_of_mem_toString (heq ▸ List.mem_cons_self)
    exact absurd hdigit (by decide)
  · rw [parseDigits_toString]
    rfl

/-- A rendered number with a sign is read back. -/
theorem toInt?_toString_int (n : ℤ) : toInt? (toString n) = some n := by
  cases n with
  | ofNat n => exact toInt?_toString n
  | negSucc n =>
      have hlist : (toString (Int.negSucc n)).toList = '-' :: (toString (n + 1)).toList :=
        String.toList_append
      have hstrip : stripChars ('-' :: (toString (n + 1)).toList) =
          '-' :: (toString (n + 1)).toList := by
        refine stripChars_of_isSpace fun c hc => ?_
        rcases List.mem_cons.1 hc with rfl | hc
        · rfl
        · exact isSpace_of_mem_toString hc
      rw [toInt?, hlist, hstrip]
      change Option.map _ (parseDigits 0 false (toString (n + 1)).toList >>= _) = _
      rw [parseDigits_toString]
      rfl

/-! ### Numbers of a width -/

/-- The digits of a number, with zeros before them up to a width. -/
def padded (width n : ℕ) : List Char := List.leftpad width '0' (Nat.toDigits 10 n)

theorem isDigit_of_mem_padded {width n : ℕ} {c : Char} (h : c ∈ padded width n) :
    c.isDigit = true := by
  rw [padded, List.leftpad, List.mem_append] at h
  rcases h with hzero | hdigit
  · rw [List.eq_of_mem_replicate hzero]
    decide
  · exact Nat.isDigit_of_mem_toDigits (by decide) (by decide) hdigit

/-- The zeros do not count. -/
theorem ofDigitChars_padded (width n : ℕ) : Nat.ofDigitChars 10 (padded width n) 0 = n := by
  rw [padded, List.leftpad, Nat.ofDigitChars_append, Nat.ofDigitChars_replicate_zero, Nat.mul_zero,
    Nat.ofDigitChars_ten_toDigits]

theorem padded_injective (width : ℕ) : Function.Injective (padded width) := fun m n h => by
  rw [← ofDigitChars_padded width m, h, ofDigitChars_padded]

end Text
