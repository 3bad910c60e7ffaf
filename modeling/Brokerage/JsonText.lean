/-
**Flat JSON objects as `json.dumps` writes them.**

A record of texts is logged as a JSON object on one line, with the separators of `json.dumps` and
`ensure_ascii=False`: control characters, quotes and backslashes are escaped, and every other
character is written as it is.  The reader of this module takes such lines apart again.  Nothing in
it refers to a particular record.

Main definitions:

* `JsonText.escape`, `JsonText.dumpsString`, `JsonText.dumpsObject` — the writer;
* `JsonText.readString`, `JsonText.readObject` — the reader.

Main results:

* `JsonText.readObject_dumpsObject` — an object that was written is read back;
* `JsonText.isLine_dumpsObject` — an object is one line, if its texts have no raw line breaks.
-/

import Brokerage.TextLines

set_option relaxedAutoImplicit false
set_option autoImplicit false

namespace JsonText

/-! ### Writing -/

/-- A hexadecimal digit. -/
def hexDigit (n : ℕ) : Char := if n < 10 then Char.ofNat (48 + n) else Char.ofNat (87 + n)

/-- A character inside a JSON string. -/
def escape (c : Char) : List Char :=
  if c = '"' then ['\\', '"']
  else if c = '\\' then ['\\', '\\']
  else if c.toNat = 10 then ['\\', 'n']
  else if c.toNat = 13 then ['\\', 'r']
  else if c.toNat = 9 then ['\\', 't']
  else if c.toNat = 12 then ['\\', 'f']
  else if c.toNat = 8 then ['\\', 'b']
  else if c.toNat < 32 then ['\\', 'u', '0', '0', hexDigit (c.toNat / 16), hexDigit (c.toNat % 16)]
  else [c]

/-- A string with its quotes. -/
def dumpsString (s : List Char) : List Char := '"' :: (s.flatMap escape ++ ['"'])

/-- A value of a flat object: a text or `null`. -/
inductive Scalar
  | str (s : String)
  | null
  deriving DecidableEq

/-- A value as JSON. -/
def dumpsScalar : Scalar → List Char
  | .str s => dumpsString s.toList
  | .null => ['n', 'u', 'l', 'l']

/-- The members of an object, up to and with the closing brace. -/
def dumpsMembers : List (String × Scalar) → List Char
  | [] => ['}']
  | [(k, v)] => dumpsString k.toList ++ [':', ' '] ++ dumpsScalar v ++ ['}']
  | (k, v) :: m :: ms =>
      dumpsString k.toList ++ [':', ' '] ++ dumpsScalar v ++ [',', ' '] ++ dumpsMembers (m :: ms)

/-- An object as JSON. -/
def dumpsObject (ms : List (String × Scalar)) : List Char := '{' :: dumpsMembers ms

/-! ### Reading -/

/-- The value of a hexadecimal digit. -/
def hexValue (c : Char) : ℕ := if c.toNat < 58 then c.toNat - 48 else c.toNat - 87

/-- The character that a letter behind a backslash stands for. -/
def unescape (c : Char) : Option Char :=
  if c = '"' ∨ c = '\\' ∨ c = '/' then some c
  else if c = 'n' then some '\n'
  else if c = 'r' then some '\r'
  else if c = 't' then some '\t'
  else if c = 'f' then some (Char.ofNat 12)
  else if c = 'b' then some (Char.ofNat 8)
  else none

/-- The rest of a string behind its opening quote, and what is behind the closing one. -/
def readString : List Char → Option (List Char × List Char)
  | [] => none
  | '\\' :: 'u' :: w :: x :: y :: z :: rest =>
      (readString rest).map fun p =>
        (Char.ofNat (((hexValue w * 16 + hexValue x) * 16 + hexValue y) * 16 + hexValue z) :: p.1,
          p.2)
  | '\\' :: e :: rest =>
      match unescape e with
      | none => none
      | some c => (readString rest).map fun p => (c :: p.1, p.2)
  | c :: rest =>
      if c = '"' then some ([], rest)
      else if c = '\\' ∨ c.toNat < 32 then none
      else (readString rest).map fun p => (c :: p.1, p.2)

/-- A value, and what is behind it. -/
def readScalar : List Char → Option (Scalar × List Char)
  | '"' :: rest => (readString rest).map fun p => (.str (String.ofList p.1), p.2)
  | 'n' :: 'u' :: 'l' :: 'l' :: rest => some (.null, rest)
  | _ => none

/-- A key with the colon behind it, and what is behind that. -/
def readKey : List Char → Option (String × List Char)
  | '"' :: rest =>
      match readString rest with
      | some (k, ':' :: ' ' :: rest') => some (String.ofList k, rest')
      | _ => none
  | _ => none

/-- The members of an object, at most as many as the fuel allows. -/
def readMembers : ℕ → List Char → Option (List (String × Scalar))
  | 0, _ => none
  | fuel + 1, text =>
      match readKey text with
      | none => none
      | some (k, rest) =>
          match readScalar rest with
          | some (v, ['}']) => some [(k, v)]
          | some (v, ',' :: ' ' :: rest') => (readMembers fuel rest').map fun ms => (k, v) :: ms
          | _ => none

/-- An object that makes up the whole text. -/
def readObject : List Char → Option (List (String × Scalar))
  | ['{', '}'] => some []
  | '{' :: rest => readMembers rest.length rest
  | _ => none

/-! ### Reading what was written -/

theorem eq_of_toNat {c : Char} {n : ℕ} (h : c.toNat = n) : c = Char.ofNat n := by
  rw [← h, Char.ofNat_toNat]

theorem hexValue_hexDigit {n : ℕ} (h : n < 16) : hexValue (hexDigit n) = n := by
  have hall : ∀ n < 16, hexValue (hexDigit n) = n := by decide
  exact hall n h

/-- A letter behind a backslash is read as what it stands for. -/
theorem readString_unescape {e c : Char} (hu : e ≠ 'u') (h : unescape e = some c)
    (rest : List Char) :
    readString ('\\' :: e :: rest) = (readString rest).map fun p => (c :: p.1, p.2) := by
  rw [readString, h]
  rintro w x y z rest' rfl
  exact absurd rfl hu

/-- Other characters are read as they are. -/
theorem readString_cons {c : Char} (hquote : c ≠ '"') (hbackslash : c ≠ '\\')
    (hcontrol : ¬ c.toNat < 32) (rest : List Char) :
    readString (c :: rest) = (readString rest).map fun p => (c :: p.1, p.2) := by
  rw [readString, if_neg hquote, if_neg (by simp [hbackslash, hcontrol])]
  · rintro w x y z rest' rfl
    exact absurd rfl hbackslash
  · rintro e rest' rfl
    exact absurd rfl hbackslash

/-- A character is written as a backslash and a letter that stands for it, with its two digits if it is
another control character, and else as it is. -/
theorem escape_cases (c : Char) :
    (∃ e, escape c = ['\\', e] ∧ e ≠ 'u' ∧ unescape e = some c ∧ Text.isLineBreak e = false) ∨
    (c.toNat < 32 ∧
      escape c = ['\\', 'u', '0', '0', hexDigit (c.toNat / 16), hexDigit (c.toNat % 16)]) ∨
    (c ≠ '"' ∧ c ≠ '\\' ∧ ¬ c.toNat < 32 ∧ escape c = [c]) := by
  have hletter (d e : Char) (hc : c = d) (h : escape d = ['\\', e] ∧ e ≠ 'u' ∧ unescape e = some d ∧
      Text.isLineBreak e = false) :
      ∃ e, escape c = ['\\', e] ∧ e ≠ 'u' ∧ unescape e = some c ∧ Text.isLineBreak e = false :=
    hc ▸ ⟨e, h⟩
  by_cases hquote : c = '"'
  · exact .inl (hletter '"' '"' hquote (by decide))
  by_cases hbackslash : c = '\\'
  · exact .inl (hletter '\\' '\\' hbackslash (by decide))
  by_cases hn : c.toNat = 10
  · exact .inl (hletter _ 'n' (eq_of_toNat hn) (by decide))
  by_cases hr : c.toNat = 13
  · exact .inl (hletter _ 'r' (eq_of_toNat hr) (by decide))
  by_cases ht : c.toNat = 9
  · exact .inl (hletter _ 't' (eq_of_toNat ht) (by decide))
  by_cases hf : c.toNat = 12
  · exact .inl (hletter _ 'f' (eq_of_toNat hf) (by decide))
  by_cases hb : c.toNat = 8
  · exact .inl (hletter _ 'b' (eq_of_toNat hb) (by decide))
  right
  by_cases hcontrol : c.toNat < 32
  · exact .inl ⟨hcontrol, by simp only [escape, hquote, hbackslash, hn, hr, ht, hf, hb, hcontrol,
      if_true, if_false]⟩
  · exact .inr ⟨hquote, hbackslash, hcontrol, by simp only [escape, hquote, hbackslash, hn, hr, ht, hf,
      hb, hcontrol, if_false]⟩

/-- An escaped character is read back. -/
theorem readString_escape (c : Char) (rest : List Char) :
    readString (escape c ++ rest) = (readString rest).map fun p => (c :: p.1, p.2) := by
  rcases escape_cases c with ⟨e, hescape, hu, hunescape, -⟩ | ⟨hcontrol, hescape⟩ |
    ⟨hquote, hbackslash, hcontrol, hescape⟩ <;> rw [hescape]
  · exact readString_unescape hu hunescape rest
  · -- a control character is written with four hexadecimal digits
    have hzero : hexValue '0' = 0 := by decide
    have hcode : ((hexValue '0' * 16 + hexValue '0') * 16 + hexValue (hexDigit (c.toNat / 16))) * 16 +
        hexValue (hexDigit (c.toNat % 16)) = c.toNat := by
      rw [hexValue_hexDigit (by omega), hexValue_hexDigit (by omega), hzero]
      omega
    simp only [List.cons_append, List.nil_append]
    rw [readString, hcode, Char.ofNat_toNat]
  · exact readString_cons hquote hbackslash hcontrol rest

/-- A string is read back. -/
theorem readString_dumpsString (s rest : List Char) :
    readString (s.flatMap escape ++ '"' :: rest) = some (s, rest) := by
  induction s with
  | nil => rfl
  | cons c s ih =>
      rw [List.flatMap_cons, List.append_assoc, readString_escape, ih]
      rfl

theorem readScalar_dumpsScalar (v : Scalar) (rest : List Char) :
    readScalar (dumpsScalar v ++ rest) = some (v, rest) := by
  cases v with
  | str s =>
      simp only [dumpsScalar, dumpsString, List.cons_append, List.append_assoc, List.nil_append,
        readScalar, readString_dumpsString, Option.map_some, String.ofList_toList]
  | null => rfl

theorem readKey_dumpsString (k : String) (rest : List Char) :
    readKey (dumpsString k.toList ++ ':' :: ' ' :: rest) = some (k, rest) := by
  simp only [dumpsString, List.cons_append, List.append_assoc, List.nil_append, readKey,
    readString_dumpsString, String.ofList_toList]

/-- The members of an object are read back, with fuel for each of them. -/
theorem readMembers_dumpsMembers {ms : List (String × Scalar)} (hne : ms ≠ []) {fuel : ℕ}
    (hfuel : ms.length ≤ fuel) : readMembers fuel (dumpsMembers ms) = some ms := by
  induction ms generalizing fuel with
  | nil => exact absurd rfl hne
  | cons m ms ih =>
      obtain ⟨k, v⟩ := m
      cases fuel with
      | zero => exact absurd hfuel (by simp)
      | succ fuel =>
          cases ms with
          | nil =>
              simp only [dumpsMembers, List.append_assoc, List.cons_append, List.nil_append,
                readMembers, readKey_dumpsString, readScalar_dumpsScalar]
          | cons m ms =>
              have hrest := ih (List.cons_ne_nil m ms) (Nat.le_of_succ_le_succ hfuel)
              simp only [dumpsMembers, List.append_assoc, List.cons_append, List.nil_append,
                readMembers, readKey_dumpsString, readScalar_dumpsScalar, hrest, Option.map_some]

theorem length_le_dumpsMembers (ms : List (String × Scalar)) :
    ms.length ≤ (dumpsMembers ms).length := by
  induction ms with
  | nil => exact Nat.zero_le _
  | cons m ms ih =>
      obtain ⟨k, v⟩ := m
      cases ms with
      | nil =>
          simp only [dumpsMembers, List.length_cons, List.length_append, List.length_nil]
          omega
      | cons m ms =>
          simp only [dumpsMembers, List.length_cons, List.length_append] at ih ⊢
          omega

/-- An object that was written is read back. -/
theorem readObject_dumpsObject (ms : List (String × Scalar)) :
    readObject (dumpsObject ms) = some ms := by
  cases ms with
  | nil => rfl
  | cons m ms =>
      have hread := readMembers_dumpsMembers (List.cons_ne_nil m ms) (length_le_dumpsMembers _)
      rw [dumpsObject, readObject, hread]
      intro heq
      have hlen := congrArg List.length heq
      obtain ⟨k, v⟩ := m
      cases ms <;> simp [dumpsMembers, dumpsString] at hlen

/-! ### Line breaks -/

/-- A text without characters that `json.dumps` leaves as they are and `str.splitlines` splits at:
the next line control, and the line and the paragraph separators. -/
def unbroken (s : String) : Bool :=
  s.toList.all fun c => c.toNat != 133 && c.toNat != 0x2028 && c.toNat != 0x2029

/-- The texts of a value are unbroken. -/
def Scalar.unbroken : Scalar → Bool
  | .str s => JsonText.unbroken s
  | .null => true

@[simp] theorem unbroken_str (s : String) : (Scalar.str s).unbroken = unbroken s := rfl

theorem noBreak_hexDigit {n : ℕ} (h : n < 16) : Text.isLineBreak (hexDigit n) = false := by
  have hall : ∀ n < 16, Text.isLineBreak (hexDigit n) = false := by decide
  exact hall n h

/-- Escapes have no line breaks; other characters are themselves. -/
theorem noBreak_escape {c d : Char}
    (h : c.toNat ≠ 133 ∧ c.toNat ≠ 0x2028 ∧ c.toNat ≠ 0x2029) (hd : d ∈ escape c) :
    Text.isLineBreak d = false := by
  rcases escape_cases c with ⟨e, hescape, -, -, hletter⟩ | ⟨hcontrol, hescape⟩ |
    ⟨-, -, hcontrol, hescape⟩ <;> rw [hescape] at hd
  · rcases List.mem_cons.1 hd with rfl | hd
    · decide
    · rw [List.mem_singleton.1 hd]
      exact hletter
  · rcases List.mem_append.1 (show d ∈ ['\\', 'u', '0', '0'] ++ _ from hd) with hmem | hmem
    · have hall : (['\\', 'u', '0', '0'].all fun d => !Text.isLineBreak d) = true := by decide
      simpa using List.all_eq_true.1 hall d hmem
    · rcases List.mem_cons.1 hmem with rfl | hmem
      · exact noBreak_hexDigit (by omega)
      · rw [List.mem_singleton.1 hmem]
        exact noBreak_hexDigit (by omega)
  · rw [List.mem_singleton.1 hd]
    simp only [Text.isLineBreak, Bool.or_eq_false_iff, Bool.and_eq_false_iff, decide_eq_false_iff_not]
    omega

theorem noBreak_dumpsString {s : String} (h : unbroken s = true) :
    ∀ d ∈ dumpsString s.toList, Text.isLineBreak d = false := by
  intro d hd
  rcases List.mem_cons.1 hd with rfl | hd
  · decide
  rcases List.mem_append.1 hd with hd | hd
  · obtain ⟨c, hc, hd⟩ := List.mem_flatMap.1 hd
    have hraw := List.all_eq_true.1 h c hc
    simp only [Bool.and_eq_true, bne_iff_ne] at hraw
    exact noBreak_escape ⟨hraw.1.1, hraw.1.2, hraw.2⟩ hd
  · rw [List.mem_singleton.1 hd]
    decide

theorem noBreak_dumpsScalar {v : Scalar} (h : v.unbroken = true) :
    ∀ d ∈ dumpsScalar v, Text.isLineBreak d = false := by
  cases v with
  | str s => exact noBreak_dumpsString h
  | null =>
      intro d hd
      have hall : ((dumpsScalar .null).all fun d => !Text.isLineBreak d) = true := by decide
      simpa using List.all_eq_true.1 hall d hd

/-- The keys and the texts of an object are unbroken. -/
def Unbroken (ms : List (String × Scalar)) : Prop :=
  ∀ m ∈ ms, unbroken m.1 = true ∧ m.2.unbroken = true

theorem noBreak_append {l l' : List Char} (h : ∀ d ∈ l, Text.isLineBreak d = false)
    (h' : ∀ d ∈ l', Text.isLineBreak d = false) : ∀ d ∈ l ++ l', Text.isLineBreak d = false :=
  fun d hd => (List.mem_append.1 hd).elim (h d) (h' d)

theorem noBreak_dumpsMembers {ms : List (String × Scalar)} (h : Unbroken ms) :
    ∀ d ∈ dumpsMembers ms, Text.isLineBreak d = false := by
  have hpunctuation : ∀ l : List Char, (l.all fun d => !Text.isLineBreak d) = true →
      ∀ d ∈ l, Text.isLineBreak d = false := by
    intro l hl d hd
    simpa using List.all_eq_true.1 hl d hd
  induction ms with
  | nil => exact hpunctuation _ (by decide)
  | cons m ms ih =>
      obtain ⟨k, v⟩ := m
      obtain ⟨hk, hv⟩ := h (k, v) List.mem_cons_self
      have hmember := noBreak_append (noBreak_append (noBreak_dumpsString hk)
        (hpunctuation [':', ' '] (by decide))) (noBreak_dumpsScalar hv)
      cases ms with
      | nil => exact noBreak_append hmember (hpunctuation ['}'] (by decide))
      | cons m ms =>
          exact noBreak_append (noBreak_append hmember (hpunctuation [',', ' '] (by decide)))
            (ih fun m' hm' => h m' (List.mem_cons_of_mem _ hm'))

theorem dumpsMembers_eq_append (ms : List (String × Scalar)) :
    ∃ text, dumpsMembers ms = text ++ ['}'] := by
  induction ms with
  | nil => exact ⟨[], rfl⟩
  | cons m ms ih =>
      obtain ⟨k, v⟩ := m
      cases ms with
      | nil => exact ⟨_, rfl⟩
      | cons m ms =>
          obtain ⟨text, htext⟩ := ih
          refine ⟨dumpsString k.toList ++ [':', ' '] ++ dumpsScalar v ++ [',', ' '] ++ text, ?_⟩
          rw [dumpsMembers, htext, ← List.append_assoc]

/-- An object whose texts are unbroken is a line. -/
theorem isLine_dumpsObject {ms : List (String × Scalar)} (h : Unbroken ms) :
    Text.IsLine (dumpsObject ms) where
  noBreak d hd := by
    rcases List.mem_cons.1 hd with rfl | hd
    · decide
    · exact noBreak_dumpsMembers h d hd
  ends := by
    obtain ⟨text, htext⟩ := dumpsMembers_eq_append ms
    exact ⟨'{', text, '}', by rw [dumpsObject, htext], by decide, by decide⟩

end JsonText
