import ScriptCheck.Json.Value

/-!
# Reading JSON

Reading is strict: one value with nothing but blanks around it. Of two members with one
name the later one counts. A value may be nested 127 levels deep. A number that is too
large for a binary floating point value is refused, and so is half of a surrogate pair.

A number that is not a whole number of 64 bits is read in three steps: as many of its
digits as fit in 64 bits, the power of ten that the remaining digits, the point and the
exponent amount to, and one rounded multiplication or division by that power.
-/

namespace ScriptCheck.Json

/-- The blanks between the parts of a value. -/
def isGap (c : Char) : Bool := c == ' ' || c == '\n' || c == '\t' || c == '\r'

def skipGap (text : Text) : Text := text.dropWhile isGap

/-! ### Strings -/

def hexValue? (c : Char) : Option Nat :=
  if c.isDigit then some (c.toNat - 48)
  else if 'a' ≤ c ∧ c ≤ 'f' then some (c.toNat - 87)
  else if 'A' ≤ c ∧ c ≤ 'F' then some (c.toNat - 55)
  else none

/-- The number that four hexadecimal digits write. -/
def hexNumber? (a b c d : Char) : Option Nat := do
  pure ((((← hexValue? a) * 16 + (← hexValue? b)) * 16 + (← hexValue? c)) * 16 + (← hexValue? d))

/-- The character of one code unit, if it is not half of a pair. -/
def unitChar? (unit : Nat) : Option Char :=
  if 0xD800 ≤ unit ∧ unit < 0xE000 then none else some (Char.ofNat unit)

/-- The character of a pair of code units. -/
def pairChar? (high low : Nat) : Option Char :=
  if 0xD800 ≤ high ∧ high < 0xDC00 ∧ 0xDC00 ≤ low ∧ low < 0xE000 then
    some (Char.ofNat (0x10000 + (high - 0xD800) * 0x400 + (low - 0xDC00)))
  else
    none

/-- The character that a single escaped character stands for. -/
def simpleEscape? : Char → Option Char
  | '\x22' => some '\x22'
  | '\\' => some '\\'
  | '/' => some '/'
  | 'b' => some '\x08'
  | 'f' => some '\x0c'
  | 'n' => some '\n'
  | 'r' => some '\r'
  | 't' => some '\t'
  | _ => none

/-- The characters of a string behind its opening quote, and what follows it. -/
def readString : Text → Option (Text × Text)
  | [] => none
  | '\x22' :: rest => some ([], rest)
  | '\\' :: 'u' :: a :: b :: c :: d :: '\\' :: 'u' :: e :: f :: g :: h :: rest =>
    match hexNumber? a b c d with
    | none => none
    | some first =>
      match unitChar? first with
      | some char =>
        (readString ('\\' :: 'u' :: e :: f :: g :: h :: rest)).map fun (cs, rest) =>
          (char :: cs, rest)
      | none => do
        let char ← pairChar? first (← hexNumber? e f g h)
        let (cs, rest) ← readString rest
        pure (char :: cs, rest)
  | '\\' :: 'u' :: a :: b :: c :: d :: rest => do
    let char ← unitChar? (← hexNumber? a b c d)
    let (cs, rest) ← readString rest
    pure (char :: cs, rest)
  | '\\' :: c :: rest => do
    let char ← simpleEscape? c
    let (cs, rest) ← readString rest
    pure (char :: cs, rest)
  | c :: rest =>
    if c.toNat < 32 ∨ c = '\\' then none
    else (readString rest).map fun (cs, rest) => (c :: cs, rest)

/-! ### Numbers -/

/-- The largest whole number kept as such. -/
def wholeLimit : Nat := Nat.pow 2 64

/-- Append digits to a number while the result fits, and count those appended. -/
def appendDigits (value count : Nat) : Text → Nat × Nat
  | [] => (value, count)
  | digit :: rest =>
    let next := value * 10 + (digit.toNat - 48)
    if next < wholeLimit then appendDigits next (count + 1) rest else (value, count)

/-- A number times a power of ten; a large negative power is divided out in steps. A power
of more than four steps leaves nothing of any 64-bit number. -/
def scaled? : Nat → Binary64 → Int → Option Binary64
  | 0, _, _ => some .zero
  | bound + 1, value, exponent =>
    if value.mantissa = 0 then
      some .zero
    else if exponent.natAbs ≤ 308 then do
      let power ← Binary64.ofNat? (Nat.pow 10 exponent.natAbs)
      if 0 ≤ exponent then value.mul? power else value.div? power
    else if 0 ≤ exponent then
      none
    else do
      let power ← Binary64.ofNat? (Nat.pow 10 308)
      scaled? bound (← value.div? power) (exponent + 308)

/-- The parts of a written number. -/
structure Written where
  negative : Bool
  whole : Text
  /-- The digits behind the point, if there is one. -/
  fraction : Option Text
  /-- The exponent, if there is one: its sign and its digits. -/
  exponent : Option (Bool × Text)

/-- Take the digits at the start of a text; there must be one. -/
def readDigits (text : Text) : Option (Text × Text) :=
  match text.span Char.isDigit with
  | ([], _) => none
  | parts => some parts

/-- Whether a minus sign stands at the start of a text, and what follows it. -/
def readSign : Text → Bool × Text
  | '-' :: rest => (true, rest)
  | text => (false, text)

/-- The digits behind a point, if there is one. -/
def readFraction : Text → Option (Option Text × Text)
  | '.' :: rest => (readDigits rest).map fun (digits, rest) => (some digits, rest)
  | text => some (none, text)

/-- Whether an exponent is below zero. A plus sign says nothing. -/
def readExponentSign : Text → Bool × Text
  | '+' :: rest => (false, rest)
  | text => readSign text

/-- The sign and the digits behind the mark of an exponent, if there is one. -/
def readExponent : Text → Option (Option (Bool × Text) × Text)
  | [] => some (none, [])
  | c :: rest =>
    if c = 'e' ∨ c = 'E' then
      let (below, rest) := readExponentSign rest
      (readDigits rest).map fun (digits, rest) => (some (below, digits), rest)
    else
      some (none, c :: rest)

/-- The parts of the number at the start of a text, and what follows it. -/
def readWritten (text : Text) : Option (Written × Text) := do
  let (negative, text) := readSign text
  let (whole, text) ← readDigits text
  if whole.head? = some '0' ∧ whole.length ≠ 1 then
    none
  else
    let (fraction, text) ← readFraction text
    let (exponent, text) ← readExponent text
    pure ({ negative, whole, fraction, exponent }, text)

/-- The number that a run of digits writes. -/
def digitsValue (digits : Text) : Nat :=
  digits.foldl (fun value digit => value * 10 + (digit.toNat - 48)) 0

/-- The value of a written number, if it is in range. -/
def Written.value? (written : Written) : Option JsonNumber := do
  let (start, kept) := appendDigits 0 0 written.whole
  let dropped := written.whole.length - kept
  match written.fraction, written.exponent with
  | none, none =>
    if dropped = 0 then
      if !written.negative then
        pure (.whole start)
      else if 0 < start ∧ start ≤ Nat.pow 2 63 then
        pure (.whole (-(start : Int)))
      else
        pure (.binary true (← Binary64.ofNat? start))
    else
      pure (.binary written.negative (← scaled? 4 (← Binary64.ofNat? start) dropped))
  | fraction, exponent =>
    let (digits, behind) := appendDigits start 0 (fraction.getD [])
    let point : Int := dropped - behind
    let (below, power) := match exponent with
      | some (below, digits) => (below, digitsValue digits)
      | none => (false, 0)
    if Nat.pow 2 31 ≤ power then
      if digits ≠ 0 ∧ !below then none else pure (.binary written.negative .zero)
    else
      let total := if below then point - power else point + power
      pure (.binary written.negative (← scaled? 4 (← Binary64.ofNat? digits) total))

/-! ### Values -/

/-- The deepest nesting of arrays and objects. -/
def nestingLimit : Nat := 127

mutual

/-- The value at the start of a text, blanks in front of it skipped. `depth` is the number
of levels that may still be opened, and `bound` bounds the steps. -/
def readValue : Nat → Nat → Text → Option (Json × Text)
  | 0, _, _ => none
  | bound + 1, depth, text =>
    match skipGap text with
    | 'n' :: 'u' :: 'l' :: 'l' :: rest => some (null, rest)
    | 't' :: 'r' :: 'u' :: 'e' :: rest => some (bool true, rest)
    | 'f' :: 'a' :: 'l' :: 's' :: 'e' :: rest => some (bool false, rest)
    | '\x22' :: rest => (readString rest).map fun (value, rest) => (string value, rest)
    | '[' :: rest =>
      match depth with
      | 0 => none
      | inner + 1 =>
        match skipGap rest with
        | ']' :: rest => some (array [], rest)
        | rest => (readItems bound inner rest).map fun (items, rest) => (array items, rest)
    | '\x7b' :: rest =>
      match depth with
      | 0 => none
      | inner + 1 =>
        match skipGap rest with
        | '\x7d' :: rest => some (object [], rest)
        | rest =>
          (readMembers bound inner rest).map fun (members, rest) => (ofMembers members, rest)
    | rest => do
      let (written, rest) ← readWritten rest
      pure (number (← written.value?), rest)

/-- The items of an array up to its closing bracket. -/
def readItems : Nat → Nat → Text → Option (List Json × Text)
  | 0, _, _ => none
  | bound + 1, depth, text => do
    let (item, rest) ← readValue bound depth text
    match skipGap rest with
    | ',' :: rest => do
      let (items, rest) ← readItems bound depth rest
      pure (item :: items, rest)
    | ']' :: rest => pure ([item], rest)
    | _ => none

/-- The members of an object up to its closing bracket. -/
def readMembers : Nat → Nat → Text → Option (List (Text × Json) × Text)
  | 0, _, _ => none
  | bound + 1, depth, text =>
    match skipGap text with
    | '\x22' :: rest => do
      let (name, rest) ← readString rest
      match skipGap rest with
      | ':' :: rest => do
        let (value, rest) ← readValue bound depth rest
        match skipGap rest with
        | ',' :: rest => do
          let (members, rest) ← readMembers bound depth rest
          pure ((name, value) :: members, rest)
        | '\x7d' :: rest => pure ([(name, value)], rest)
        | _ => none
      | _ => none
    | _ => none

end

/-- The value that a text writes. -/
def read? (text : Text) : Option Json := do
  let (value, rest) ← readValue (text.length + 1) nestingLimit text
  if (skipGap rest).isEmpty then some value else none

end ScriptCheck.Json
