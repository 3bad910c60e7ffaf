/-
**The lines of a text.**

A log is a text file to which lines are appended, each with a newline after it, and which is read
back as a whole: newlines are translated, white space around the text is trimmed, and the text is
split at line breaks.  Python's `str.splitlines` splits at more characters than the newline that a
line is ended with, so the lines that were written are read back if they have none of these.
Nothing in this module refers to a particular log.

Main definitions:

* `Text.isLineBreak`, `Text.splitLines` — the characters `str.splitlines` splits at, and the pieces;
* `Text.universalNewlines` — what reading a file in text mode does to it;
* `Text.unlines` — lines that were appended one by one;
* `Text.fileLines` — the lines that iterating over a file yields.

Main results:

* `Text.splitLines_unlines_append` — lines without line breaks are split off what is behind them;
* `Text.readLines_unlines` — the lines that were appended to a file are read back;
* `Text.fileLines_unlines` — the same for iterating over it.
-/

import Brokerage.Text

set_option relaxedAutoImplicit false
set_option autoImplicit false

namespace Text

/-! ### Line breaks -/

/-- The characters `str.splitlines` splits at. -/
def isLineBreak (c : Char) : Bool :=
  (10 ≤ c.toNat && c.toNat ≤ 13) || (28 ≤ c.toNat && c.toNat ≤ 30) || c.toNat = 133 ||
    c.toNat = 0x2028 || c.toNat = 0x2029

/-- The pieces between the line breaks; a carriage return and a newline are one of them, and there
is no piece behind the last one. -/
def splitLines : List Char → List (List Char)
  | [] => []
  | '\r' :: '\n' :: rest => [] :: splitLines rest
  | c :: rest =>
      if isLineBreak c then [] :: splitLines rest
      else
        match splitLines rest with
        | [] => [[c]]
        | line :: lines => (c :: line) :: lines

/-- Reading in text mode: every carriage return, with a newline after it or not, is a newline. -/
def universalNewlines : List Char → List Char
  | [] => []
  | '\r' :: '\n' :: rest => '\n' :: universalNewlines rest
  | c :: rest => (if c = '\r' then '\n' else c) :: universalNewlines rest

/-- The text of lines that were appended one by one, each with a newline. -/
def unlines (lines : List (List Char)) : List Char := lines.flatMap fun line => line ++ ['\n']

/-- The lines of a file, without white space around its text. -/
def readLines (file : List Char) : List (List Char) :=
  splitLines (stripChars (universalNewlines file))

@[simp] theorem unlines_nil : unlines [] = [] := rfl

@[simp] theorem unlines_cons (line : List Char) (lines : List (List Char)) :
    unlines (line :: lines) = line ++ '\n' :: unlines lines := by
  simp [unlines]

theorem unlines_append (lines lines' : List (List Char)) :
    unlines (lines ++ lines') = unlines lines ++ unlines lines' := by
  simp [unlines]

/-! ### Splitting -/

theorem ne_return_of_isLineBreak {c : Char} (h : isLineBreak c = false) : c ≠ '\r' := by
  rintro rfl
  exact absurd h (by decide)

theorem isLineBreak_of_isSpace {c : Char} (h : isSpace c = false) : isLineBreak c = false := by
  rw [Bool.eq_false_iff] at h ⊢
  refine fun hbreak => h ?_
  simp only [isLineBreak, isSpace, Bool.or_eq_true, Bool.and_eq_true, decide_eq_true_eq]
    at hbreak ⊢
  omega

theorem splitLines_cons_of_break {c : Char} (rest : List Char) (hr : c ≠ '\r')
    (h : isLineBreak c = true) : splitLines (c :: rest) = [] :: splitLines rest := by
  rw [splitLines, if_pos h]
  rintro rest' rfl
  exact absurd rfl hr

theorem splitLines_cons {c : Char} (rest : List Char) (h : isLineBreak c = false) :
    splitLines (c :: rest) =
      match splitLines rest with
      | [] => [[c]]
      | line :: lines => (c :: line) :: lines := by
  rw [splitLines, if_neg (by rw [h]; decide)]
  rintro rest' rfl
  exact absurd rfl (ne_return_of_isLineBreak h)

/-- A line with a newline behind it is split off. -/
theorem splitLines_append_newline {line : List Char} (h : ∀ c ∈ line, isLineBreak c = false)
    (rest : List Char) : splitLines (line ++ '\n' :: rest) = line :: splitLines rest := by
  induction line with
  | nil => exact splitLines_cons_of_break rest (by decide) (by decide)
  | cons c line ih =>
      have ih := ih fun d hd => h d (List.mem_cons_of_mem _ hd)
      rw [List.cons_append, splitLines_cons _ (h c List.mem_cons_self), ih]

/-- A line at the end needs no newline. -/
theorem splitLines_of_ne_nil {line : List Char} (h : ∀ c ∈ line, isLineBreak c = false)
    (hne : line ≠ []) : splitLines line = [line] := by
  induction line with
  | nil => exact absurd rfl hne
  | cons c line ih =>
      rw [splitLines_cons _ (h c List.mem_cons_self)]
      by_cases hline : line = []
      · subst hline
        rfl
      · rw [ih (fun d hd => h d (List.mem_cons_of_mem _ hd)) hline]

/-- Lines without line breaks are split off the text behind them. -/
theorem splitLines_unlines_append {lines : List (List Char)}
    (h : ∀ line ∈ lines, ∀ c ∈ line, isLineBreak c = false) (rest : List Char) :
    splitLines (unlines lines ++ rest) = lines ++ splitLines rest := by
  induction lines with
  | nil => rfl
  | cons line lines ih =>
      rw [unlines_cons, List.append_assoc, List.cons_append,
        splitLines_append_newline (h line List.mem_cons_self),
        ih fun line' hline' => h line' (List.mem_cons_of_mem _ hline'), List.cons_append]

/-! ### Trimming -/

/-- A text without carriage returns is read as it is. -/
theorem universalNewlines_of_not_mem {file : List Char} (h : '\r' ∉ file) :
    universalNewlines file = file := by
  induction file with
  | nil => rfl
  | cons c rest ih =>
      have hc : c ≠ '\r' := fun hc => h (hc ▸ List.mem_cons_self)
      rw [universalNewlines, if_neg hc, ih fun hmem => h (List.mem_cons_of_mem _ hmem)]
      rintro rest' rfl
      exact absurd rfl hc

/-- Only the newline is trimmed off a text between two characters that are not white space. -/
theorem stripChars_append_newline {c d : Char} (hc : isSpace c = false) (hd : isSpace d = false)
    (text : List Char) : stripChars (c :: (text ++ [d, '\n'])) = c :: (text ++ [d]) := by
  have hnewline : isSpace '\n' = true := by decide
  simp [stripChars, hc, hd, hnewline]

/-- Nothing is trimmed off a text that begins and ends with other characters. -/
theorem stripChars_eq_self {c d : Char} (hc : isSpace c = false) (hd : isSpace d = false)
    (text : List Char) : stripChars (c :: (text ++ [d])) = c :: (text ++ [d]) := by
  simp [stripChars, hc, hd]

/-- A line that begins and ends with characters that are not white space, and has no line break. -/
structure IsLine (line : List Char) : Prop where
  noBreak : ∀ c ∈ line, isLineBreak c = false
  ends : ∃ c text d, line = c :: (text ++ [d]) ∧ isSpace c = false ∧ isSpace d = false

theorem IsLine.stripChars {line : List Char} (h : IsLine line) : stripChars line = line := by
  obtain ⟨c, text, d, rfl, hc, hd⟩ := h.ends
  exact stripChars_eq_self hc hd text

theorem IsLine.ne_nil {line : List Char} (h : IsLine line) : line ≠ [] := by
  obtain ⟨c, text, d, rfl, -, -⟩ := h.ends
  exact List.cons_ne_nil _ _

theorem return_not_mem_unlines {lines : List (List Char)}
    (h : ∀ line ∈ lines, ∀ c ∈ line, isLineBreak c = false) : '\r' ∉ unlines lines := by
  intro hmem
  obtain ⟨line, hline, hr⟩ := List.mem_flatMap.1 hmem
  rcases List.mem_append.1 hr with hr | hr
  · exact ne_return_of_isLineBreak (h line hline _ hr) rfl
  · exact absurd (List.mem_singleton.1 hr) (by decide)

/-- Trimming the text of appended lines takes the last newline off. -/
theorem stripChars_unlines {lines : List (List Char)} {last : List Char}
    (h : ∀ line ∈ lines ++ [last], IsLine line) :
    stripChars (unlines (lines ++ [last])) = unlines lines ++ last := by
  obtain ⟨c, text, d, rfl, hc, hd⟩ :=
    (h last (List.mem_append_right _ (List.mem_singleton_self last))).ends
  cases lines with
  | nil => simpa using stripChars_append_newline hc hd text
  | cons first lines =>
      obtain ⟨c', text', d', rfl, hc', hd'⟩ := (h _ List.mem_cons_self).ends
      have hstrip := stripChars_append_newline hc' hd
        (text' ++ [d'] ++ '\n' :: unlines lines ++ c :: text)
      simpa [unlines_append] using hstrip

/-- The lines that were appended to a file are read back. -/
theorem readLines_unlines {lines : List (List Char)} (h : ∀ line ∈ lines, IsLine line) :
    readLines (unlines lines) = lines := by
  have hbreak : ∀ line ∈ lines, ∀ c ∈ line, isLineBreak c = false :=
    fun line hline => (h line hline).noBreak
  rw [readLines, universalNewlines_of_not_mem (return_not_mem_unlines hbreak)]
  rcases List.eq_nil_or_concat' lines with rfl | ⟨lines, last, rfl⟩
  · rfl
  · have hlast := h last (List.mem_append_right _ (List.mem_singleton_self last))
    rw [stripChars_unlines h, splitLines_unlines_append fun line hline =>
      hbreak line (List.mem_append_left _ hline), splitLines_of_ne_nil hlast.noBreak hlast.ne_nil]

/-! ### Iterating over a file -/

/-- The lines of a file that is iterated over in text mode, without their newlines. -/
def fileLines (file : List Char) : List (List Char) :=
  let pieces := (universalNewlines file).splitOn '\n'
  if pieces.getLast? = some [] then pieces.dropLast else pieces

theorem unlines_eq_intercalate (lines : List (List Char)) :
    unlines lines = ['\n'].intercalate (lines ++ [[]]) := by
  induction lines with
  | nil => rfl
  | cons line lines ih =>
      have hne : lines ++ [[]] ≠ [] := by simp
      rw [unlines_cons, ih, List.cons_append, List.intercalate_cons_of_ne_nil hne,
        List.append_assoc, List.singleton_append]

/-- The lines that were written are iterated over. -/
theorem fileLines_unlines {lines : List (List Char)}
    (h : ∀ line ∈ lines, ∀ c ∈ line, isLineBreak c = false) : fileLines (unlines lines) = lines := by
  have hpieces : (universalNewlines (unlines lines)).splitOn '\n' = lines ++ [[]] := by
    rw [universalNewlines_of_not_mem (return_not_mem_unlines h), unlines_eq_intercalate]
    refine List.splitOn_intercalate '\n' (fun line hline hnewline => ?_) (by simp)
    rcases List.mem_append.1 hline with hline | hline
    · exact absurd (h line hline _ hnewline) (by decide)
    · rw [List.mem_singleton.1 hline] at hnewline
      cases hnewline
  rw [fileLines, hpieces]
  simp

end Text
