import Mathlib.Data.List.TakeDrop
import Mathlib.Data.List.TakeWhile
import ScriptCheck.Json.Printer
import ScriptCheck.Json.Reader

/-!
# Reading back strings and numbers

What is written for a string is read as that string, whatever its characters: every one
that would end the string or is not allowed in it is escaped, and what its escape stands
for is the character. What is written for a whole number of 64 bits is read as that number.

A number is read to its end, and what follows has a say in where that is. In front of a
comma or a closing bracket, or at the end of the text, a number is read as if it stood
alone.
-/

namespace ScriptCheck.Json

/-! ### Strings -/

/-- A code unit that is a character is read as that character. -/
theorem readString_unit {a b c d char : Char} {unit : Nat} (hex : hexNumber? a b c d = some unit)
    (single : unitChar? unit = some char) (rest : Text) :
    readString ('\\' :: 'u' :: a :: b :: c :: d :: rest) =
      (readString rest).map fun read => (char :: read.1, read.2) := by
  by_cases paired : ∃ e f g h tail, rest = '\\' :: 'u' :: e :: f :: g :: h :: tail
  · obtain ⟨e, f, g, h, tail, rfl⟩ := paired
    rw [readString.eq_3, hex]
    simp only [single]
  · have alone : ∀ e f g h tail, rest = '\\' :: 'u' :: e :: f :: g :: h :: tail → False :=
      fun e f g h tail same => paired ⟨e, f, g, h, tail, same⟩
    rw [readString.eq_4 _ _ _ _ _ alone, hex]
    cases readString rest <;> simp [single]

/-- An escaped character is read as the one it stands for. -/
theorem readString_simple {mark char : Char} (stands : simpleEscape? mark = some char)
    (rest : Text) :
    readString ('\\' :: mark :: rest) =
      (readString rest).map fun read => (char :: read.1, read.2) := by
  have notUnit : mark ≠ 'u' := by
    rintro rfl
    cases stands
  rw [readString.eq_5 _ _ (fun _ _ _ _ _ _ _ _ _ same => absurd same notUnit)
    (fun _ _ _ _ _ same => absurd same notUnit), stands]
  cases readString rest <;> rfl

/-- Any other character is read as itself. -/
theorem readString_plain {c : Char} (quote : c ≠ '\x22') (escape : c ≠ '\\') (shown : 32 ≤ c.toNat)
    (rest : Text) :
    readString (c :: rest) = (readString rest).map fun read => (c :: read.1, read.2) := by
  rw [readString.eq_6 _ _ quote (fun _ _ _ _ _ _ _ _ _ same => absurd same escape)
    (fun _ _ _ _ _ same => absurd same escape) (fun _ _ same => absurd same escape),
    if_neg (not_or.mpr ⟨Nat.not_lt.mpr shown, escape⟩)]

/-- The hexadecimal digits of a control character give its code. -/
theorem hexNumber?_hexDigit : ∀ n < 32,
    hexNumber? '0' '0' (hexDigit (n / 16)) (hexDigit (n % 16)) = some n := by
  decide

/-- A written character is read back, whatever follows it. The cases are those of writing: simple
escapes, code units and plain characters. -/
theorem readString_escapeChar (c : Char) (rest : Text) :
    readString (escapeChar c ++ rest) =
      (readString rest).map fun read => (c :: read.1, read.2) := by
  rw [escapeChar.eq_def]
  split
  · exact readString_simple rfl rest
  · exact readString_simple rfl rest
  · exact readString_simple rfl rest
  · exact readString_simple rfl rest
  · exact readString_simple rfl rest
  · exact readString_simple rfl rest
  · exact readString_simple rfl rest
  · rename_i quote escape _ _ _ _ _
    split
    · rename_i control
      have single : unitChar? c.toNat = some c := by
        rw [unitChar?, if_neg (by omega), Char.ofNat_toNat]
      exact readString_unit (hexNumber?_hexDigit c.toNat control) single rest
    · rename_i shown
      exact readString_plain quote escape (Nat.not_lt.mp shown) rest

/-- A written string is read back. -/
theorem readString_stringText (value rest : Text) :
    readString (value.flatMap escapeChar ++ '\x22' :: rest) = some (value, rest) := by
  induction value with
  | nil => rw [List.flatMap_nil, List.nil_append, readString]
  | cons c value ih =>
    rw [List.flatMap_cons, List.append_assoc, readString_escapeChar, ih,
      Option.map_some]

/-- No character is written as a newline, not even the newline, which is written as an escape. -/
theorem newline_not_mem_escapeChar (c : Char) : '\n' ∉ escapeChar c := by
  rw [escapeChar.eq_def]
  split
  · decide
  · decide
  · decide
  · decide
  · decide
  · decide
  · decide
  · rename_i newline _ _ _ _
    split
    · rename_i control
      have digits : ∀ n < 32, '\n' ∉ "\\u00".toList ++ [hexDigit (n / 16), hexDigit (n % 16)] := by
        decide
      exact digits c.toNat control
    · rw [List.mem_singleton]
      exact Ne.symm newline

/-- A string is written on one line. -/
theorem newline_not_mem_stringText (value : Text) : '\n' ∉ stringText value := by
  simp only [stringText, List.cons_append, List.mem_cons, List.mem_append, List.mem_flatMap,
    List.not_mem_nil, or_false, not_or, not_exists, not_and]
  refine ⟨by decide, ?_, by decide⟩
  intro c _
  exact newline_not_mem_escapeChar c

/-! ### Where a number ends -/

/-- What may follow a value: nothing, a comma or a closing bracket. -/
def Follows (rest : Text) : Prop := ∀ c ∈ rest.head?, c = ',' ∨ c = ']' ∨ c = '\x7d'

/-- What follows a value is no part of a number. -/
theorem Follows.head {c : Char} {rest : Text} (follows : Follows (c :: rest)) :
    c.isDigit = false ∧ c ≠ '-' ∧ c ≠ '+' ∧ c ≠ '.' ∧ c ≠ 'e' ∧ c ≠ 'E' := by
  rcases follows c rfl with rfl | rfl | rfl <;> decide

section

variable {rest : Text} (follows : Follows rest)

include follows

/-- Digits are read as if they stood alone, because what follows a value does not start with a
digit. -/
theorem readDigits_append (text : Text) :
    readDigits (text ++ rest) = (readDigits text).map fun read => (read.1, read.2 ++ rest) := by
  have stops : rest.takeWhile Char.isDigit = [] ∧ rest.dropWhile Char.isDigit = rest := by
    cases rest with
    | nil => exact ⟨rfl, rfl⟩
    | cons c rest => simp [follows.head.1]
  have taken : (text ++ rest).takeWhile Char.isDigit = text.takeWhile Char.isDigit := by
    rw [List.takeWhile_append, stops.1, List.append_nil]
    split
    · rename_i whole
      exact ((List.takeWhile_prefix Char.isDigit).eq_of_length whole).symm
    · rfl
  have dropped : (text ++ rest).dropWhile Char.isDigit = text.dropWhile Char.isDigit ++ rest := by
    rw [List.dropWhile_append, stops.2]
    split
    · rename_i whole
      rw [List.isEmpty_iff.mp whole, List.nil_append]
    · rfl
  simp only [readDigits, List.span_eq_takeWhile_dropWhile, taken, dropped]
  cases text.takeWhile Char.isDigit <;> rfl

/-- A sign is read as if it stood alone. -/
theorem readSign_append (text : Text) :
    readSign (text ++ rest) = ((readSign text).1, (readSign text).2 ++ rest) := by
  cases text with
  | cons c text => by_cases minus : c = '-' <;> simp [readSign, minus]
  | nil =>
    cases rest with
    | nil => rfl
    | cons c rest => simp [readSign, follows.head.2.1]

/-- A fraction is read as if it stood alone. -/
theorem readFraction_append (text : Text) :
    readFraction (text ++ rest) =
      (readFraction text).map fun read => (read.1, read.2 ++ rest) := by
  cases text with
  | cons c text =>
    by_cases point : c = '.'
    · subst point
      rw [List.cons_append, readFraction, readFraction, readDigits_append follows]
      cases readDigits text <;> rfl
    · simp [readFraction, point]
  | nil =>
    cases rest with
    | nil => rfl
    | cons c rest => simp [readFraction, follows.head.2.2.2.1]

/-- The sign of an exponent is read as if it stood alone. -/
theorem readExponentSign_append (text : Text) :
    readExponentSign (text ++ rest) =
      ((readExponentSign text).1, (readExponentSign text).2 ++ rest) := by
  cases text with
  | cons c text =>
    by_cases plus : c = '+'
    · simp [readExponentSign, plus]
    · simpa [readExponentSign, plus] using readSign_append follows (c :: text)
  | nil =>
    cases rest with
    | nil => rfl
    | cons c rest => simp [readExponentSign, readSign, follows.head.2.1, follows.head.2.2.1]

/-- An exponent is read as if it stood alone, because what follows a value starts with neither its
mark nor a digit. -/
theorem readExponent_append (text : Text) :
    readExponent (text ++ rest) =
      (readExponent text).map fun read => (read.1, read.2 ++ rest) := by
  cases text with
  | cons c text =>
    rw [List.cons_append, readExponent, readExponent]
    split
    · simp only [readExponentSign_append follows, readDigits_append follows]
      cases readDigits (readExponentSign text).2 <;> rfl
    · rfl
  | nil =>
    cases rest with
    | nil => rfl
    | cons c rest =>
      have unmarked : ¬(c = 'e' ∨ c = 'E') := not_or.mpr follows.head.2.2.2.2
      simp [readExponent, unmarked]

/-- A number is read as if it stood alone, part by part, and what follows it is left over. -/
theorem readWritten_append (text : Text) :
    readWritten (text ++ rest) = (readWritten text).map fun read => (read.1, read.2 ++ rest) := by
  simp only [readWritten, readSign_append follows, readDigits_append follows]
  cases readDigits (readSign text).2 with
  | none => rfl
  | some whole =>
    simp only [Option.map_some, Option.bind_eq_bind, Option.bind_some]
    split
    · rfl
    · rw [readFraction_append follows]
      cases readFraction whole.2 with
      | none => rfl
      | some fraction =>
        simp only [Option.map_some, Option.bind_some, readExponent_append follows]
        cases readExponent fraction.2 <;> rfl

end

/-! ### What is left of a number -/

/-- What is left behind digits is an end of the text. -/
theorem suffix_of_readDigits {text digits rest : Text}
    (read : readDigits text = some (digits, rest)) : rest <:+ text := by
  rw [readDigits, List.span_eq_takeWhile_dropWhile] at read
  split at read
  · cases read
  · cases read
    exact List.dropWhile_suffix Char.isDigit

/-- What is left behind a sign is an end of the text. -/
theorem suffix_readSign (text : Text) : (readSign text).2 <:+ text := by
  unfold readSign
  split
  · exact List.suffix_cons _ _
  · exact List.suffix_refl _

/-- What is left behind a fraction is an end of the text. -/
theorem suffix_of_readFraction {text rest : Text} {fraction : Option Text}
    (read : readFraction text = some (fraction, rest)) : rest <:+ text := by
  unfold readFraction at read
  split at read
  · obtain ⟨digits, found, same⟩ := Option.map_eq_some_iff.mp read
    cases same
    exact (suffix_of_readDigits found).trans (List.suffix_cons _ _)
  · cases read
    exact List.suffix_refl _

/-- What is left behind an exponent's sign is an end of the text. -/
theorem suffix_readExponentSign (text : Text) : (readExponentSign text).2 <:+ text := by
  unfold readExponentSign
  split
  · exact List.suffix_cons _ _
  · exact suffix_readSign _

/-- What is left behind an exponent is an end of the text. -/
theorem suffix_of_readExponent {text rest : Text} {exponent : Option (Bool × Text)}
    (read : readExponent text = some (exponent, rest)) : rest <:+ text := by
  unfold readExponent at read
  split at read
  · cases read
    exact List.suffix_refl _
  · split at read
    · obtain ⟨digits, found, same⟩ := Option.map_eq_some_iff.mp read
      cases same
      exact ((suffix_of_readDigits found).trans (suffix_readExponentSign _)).trans
        (List.suffix_cons _ _)
    · cases read
      exact List.suffix_refl _

/-- What is left behind a number is an end of the text. -/
theorem suffix_of_readWritten {text rest : Text} {written : Written}
    (read : readWritten text = some (written, rest)) : rest <:+ text := by
  simp only [readWritten, Option.bind_eq_bind, Option.bind_eq_some_iff] at read
  obtain ⟨whole, wholeRead, read⟩ := read
  split at read
  · cases read
  · simp only [Option.bind_eq_some_iff] at read
    obtain ⟨fraction, fractionRead, exponent, exponentRead, same⟩ := read
    cases same
    apply (suffix_of_readExponent exponentRead).trans
    apply (suffix_of_readFraction fractionRead).trans
    apply (suffix_of_readDigits wholeRead).trans
    exact suffix_readSign text

/-! ### The characters of a number -/

/-- Whether a character may stand in a number. -/
def isNumeral (c : Char) : Bool := c.isDigit || c == '-' || c == '.' || c == 'e'

/-- The decimal characters of a number are digits. -/
theorem isDigit_of_mem_digitsOf {n : Nat} {c : Char} (mem : c ∈ digitsOf n) : c.isDigit = true :=
  Nat.isDigit_of_mem_toDigits (by decide) (by decide) mem

/-- The digits of a number may stand in a number. -/
theorem all_digitsOf (n : Nat) : (digitsOf n).all isNumeral = true := by
  apply List.all_eq_true.mpr
  intro c mem
  simp [isNumeral, isDigit_of_mem_digitsOf mem]

/-- A whole number is written with characters of numbers only. -/
theorem all_wholeText (value : Int) : (wholeText value).all isNumeral = true := by
  unfold wholeText
  split
  · rw [List.all_cons, all_digitsOf]
    decide
  · exact all_digitsOf _

/-- A decimal is written with characters of numbers only. Its forms are digits with a point, with
zeros, and with an exponent. -/
theorem all_decimalText (decimal : Decimal) : (decimalText decimal).all isNumeral = true := by
  have marked (power : Int) : ('e' :: wholeText power).all isNumeral = true := by
    rw [List.all_cons, all_wholeText]
    decide
  have numerals := all_digitsOf decimal.digits
  have taken (count : Nat) : ((digitsOf decimal.digits).take count).all isNumeral = true :=
    List.all_eq_true.mpr fun c mem => List.all_eq_true.mp numerals c (List.mem_of_mem_take mem)
  have dropped (count : Nat) : ((digitsOf decimal.digits).drop count).all isNumeral = true :=
    List.all_eq_true.mpr fun c mem => List.all_eq_true.mp numerals c (List.mem_of_mem_drop mem)
  have zeros (count : Nat) : (List.replicate count '0').all isNumeral = true := by
    apply List.all_eq_true.mpr
    intro c mem
    rw [List.eq_of_mem_replicate mem]
    decide
  have point : isNumeral '.' = true := by decide
  simp only [decimalText]
  split
  · simp only [List.all_append, numerals, zeros, Bool.and_self, Bool.true_and]
    decide
  · split
    · simp only [List.all_append, List.all_cons, taken, dropped, point, Bool.and_self]
    · split
      · simp only [List.all_append, numerals, zeros, Bool.and_true]
        decide
      · split
        · rename_i digit same
          rw [same, List.all_cons, List.all_nil, Bool.and_true] at numerals
          rw [List.all_cons, numerals, marked, Bool.and_self]
        · rename_i digit rest _ same
          rw [same, List.all_cons, Bool.and_eq_true] at numerals
          simp only [List.cons_append, List.all_cons, List.all_append, numerals.1, numerals.2,
            point, Bool.true_and]
          exact marked _
        · exact marked _

/-- A written number has no other characters. -/
theorem all_numberText (value : JsonNumber) : (numberText value).all isNumeral = true := by
  cases value with
  | whole value => exact all_wholeText value
  | binary negative magnitude =>
    rw [numberText, List.all_append, all_decimalText]
    cases negative <;> decide

/-! ### Numbers -/

/-- A number that is read as it is written, to its end. -/
def ReadsBack (value : JsonNumber) : Prop :=
  ∃ written, readWritten (numberText value) = some (written, []) ∧ written.value? = some value

/-- Digits are appended to a number while the result fits, and then all of them are counted. The
induction is on the digits. -/
theorem appendDigits_of_lt {digits : Text} {value : Nat} (count : Nat)
    (fits : Nat.ofDigitChars 10 digits value < wholeLimit) :
    appendDigits value count digits =
      (Nat.ofDigitChars 10 digits value, count + digits.length) := by
  have grows : ∀ (digits : Text) (value : Nat), value ≤ Nat.ofDigitChars 10 digits value := by
    intro digits
    induction digits with
    | nil => simp
    | cons digit rest ih =>
      intro value
      rw [Nat.ofDigitChars_cons]
      apply Nat.le_trans _ (ih _)
      omega
  induction digits generalizing value count with
  | nil => rfl
  | cons digit rest ih =>
    rw [Nat.ofDigitChars_cons] at fits ⊢
    have next : value * 10 + (digit.toNat - 48) = 10 * value + (digit.toNat - '0'.toNat) := by
      rw [Nat.mul_comm, show '0'.toNat = 48 from rfl]
    rw [appendDigits, next, if_pos (Nat.lt_of_le_of_lt (grows rest _) fits),
      ih (count + 1) fits, List.length_cons, Nat.add_assoc, Nat.add_comm 1]

/-- The digits of a number are read to their end. -/
theorem readDigits_digitsOf (n : Nat) : readDigits (digitsOf n) = some (digitsOf n, []) := by
  have digits : ∀ c ∈ digitsOf n, c.isDigit = true := fun c mem => isDigit_of_mem_digitsOf mem
  rw [readDigits, List.span_eq_takeWhile_dropWhile, List.takeWhile_eq_self_iff.mpr digits,
    List.dropWhile_eq_nil_iff.mpr digits]
  split
  · rename_i empty
    exact absurd (congrArg Prod.fst empty) Nat.toDigits_ne_nil
  · rfl

/-- The digits of a number other than zero do not start with a zero, so that what is written has no
superfluous zero. -/
theorem eq_zero_of_head?_digitsOf {n : Nat} (zero : (digitsOf n).head? = some '0') : n = 0 := by
  induction n using Nat.strongRecOn with
  | ind n ih =>
    by_cases small : n < 10
    · rw [digitsOf, Nat.toDigits_of_lt_base small, List.head?_cons, Option.some_inj] at zero
      exact Nat.digitChar_eq_zero.mp zero
    · have leading : (digitsOf (n / 10)).head? = some '0' := by
        rw [digitsOf, Nat.toDigits_of_base_le (by decide) (Nat.not_lt.mp small),
          List.head?_append] at zero
        cases same : Nat.toDigits 10 (n / 10) with
        | nil => exact absurd same Nat.toDigits_ne_nil
        | cons digit rest => simpa [digitsOf, same] using zero
      have tens : n / 10 = 0 := ih (n / 10) (by omega) leading
      omega

/-- The sign of a written whole number is read as the sign of the number, and its digits are
left. -/
theorem readSign_wholeText (value : Int) :
    readSign (wholeText value) = (decide (value < 0), digitsOf value.natAbs) := by
  rw [wholeText]
  split
  · rename_i below
    simp [readSign, below]
  · rename_i above
    rw [decide_eq_false above]
    cases same : digitsOf value.natAbs with
    | nil => rfl
    | cons digit rest =>
      have isDigit : digit.isDigit = true := by
        apply isDigit_of_mem_digitsOf
        rw [same]
        exact List.mem_cons_self
      have noSign : digit ≠ '-' := by
        rintro rfl
        cases isDigit
      simp [readSign, noSign]

/-- A written whole number is read to its end. -/
theorem readWritten_wholeText (value : Int) :
    readWritten (wholeText value) =
      some (⟨decide (value < 0), digitsOf value.natAbs, none, none⟩, []) := by
  have noZero :
      ¬((digitsOf value.natAbs).head? = some '0' ∧ (digitsOf value.natAbs).length ≠ 1) := by
    rintro ⟨zero, long⟩
    rw [eq_zero_of_head?_digitsOf zero] at long
    exact long rfl
  simp only [readWritten, readSign_wholeText, readDigits_digitsOf, Option.bind_eq_bind,
    Option.bind_some, if_neg noZero, readFraction, readExponent]
  rfl

/-- Whether a number is one that reading yields: a whole number is one of 64 bits. -/
def InRange : JsonNumber → Prop
  | .whole value => -(Nat.pow 2 63 : Int) ≤ value ∧ value < wholeLimit
  | .binary _ _ => True

/-- Whole numbers of 64 bits are read back: their digits fit, and the sign is applied to what they
are worth. -/
theorem readsBack_whole {value : Int} (inRange : InRange (.whole value)) :
    ReadsBack (.whole value) := by
  refine ⟨_, readWritten_wholeText value, ?_⟩
  have written : Nat.ofDigitChars 10 (digitsOf value.natAbs) 0 = value.natAbs :=
    Nat.ofDigitChars_toDigits (by decide) (by decide)
  obtain ⟨least, greatest⟩ := inRange
  have small : Nat.pow 2 63 < wholeLimit := by decide
  have fits : Nat.ofDigitChars 10 (digitsOf value.natAbs) 0 < wholeLimit := by
    rw [written]
    omega
  have kept := appendDigits_of_lt 0 fits
  rw [written] at kept
  simp only [Written.value?, kept, Nat.zero_add, Nat.sub_self, if_true]
  by_cases below : value < 0
  · have half : 0 < value.natAbs ∧ value.natAbs ≤ Nat.pow 2 63 := ⟨by omega, by omega⟩
    have same : -(value.natAbs : Int) = value := by omega
    simp only [below, decide_true, Bool.not_true, Bool.false_eq_true, if_false, half, and_self,
      if_true, same, Option.pure_def]
  · have same : (value.natAbs : Int) = value := by omega
    simp only [below, decide_false, Bool.not_false, if_true, same, Option.pure_def]

/-- Appending digits never yields a number that is too large. -/
theorem appendDigits_lt {value : Nat} (fits : value < wholeLimit) (count : Nat) (digits : Text) :
    (appendDigits value count digits).1 < wholeLimit := by
  induction digits generalizing value count with
  | nil => exact fits
  | cons digit rest ih =>
    rw [appendDigits]
    split
    · rename_i next
      exact ih next (count + 1)
    · exact fits

/-- Reading yields no whole number beyond 64 bits. What has more digits is read as a binary
number. -/
theorem inRange_of_value? {written : Written} {value : JsonNumber}
    (worth : written.value? = some value) : InRange value := by
  have fits := appendDigits_lt (show 0 < wholeLimit by decide) 0 written.whole
  cases value with
  | binary negative magnitude => trivial
  | whole value =>
    have rounded (start : Option Binary64) (total : Int) : (start.bind fun start =>
        (scaled? 4 start total).bind fun magnitude =>
          some (JsonNumber.binary written.negative magnitude)) ≠ some (JsonNumber.whole value) := by
      intro scaled
      obtain ⟨start, -, rest⟩ := Option.bind_eq_some_iff.mp scaled
      obtain ⟨magnitude, -, other⟩ := Option.bind_eq_some_iff.mp rest
      cases other
    simp only [Written.value?, Option.pure_def, Option.bind_eq_bind] at worth
    split at worth
    · split at worth
      · split at worth
        · cases worth
          exact ⟨by omega, by omega⟩
        · split at worth
          · rename_i half
            cases worth
            exact ⟨by omega, by omega⟩
          · obtain ⟨magnitude, -, other⟩ := Option.bind_eq_some_iff.mp worth
            cases other
      · exact absurd worth (rounded _ _)
    · -- the exponent is split off first: it decides the sign and the size of the power
      split at worth <;> split at worth
      · split at worth <;> cases worth
      · exact absurd worth (rounded _ _)
      · split at worth <;> cases worth
      · exact absurd worth (rounded _ _)

end ScriptCheck.Json
