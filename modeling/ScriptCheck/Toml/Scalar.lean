import ScriptCheck.Number.Binary64
import ScriptCheck.Toml.Value

/-!
# Strings, numbers and dates in TOML

Each reader takes what it reads from the start of a text and gives the rest. Control
characters other than the tab may stand in no string. In a string of several lines a
carriage return must come with its newline, and both together are read as a newline.
-/

namespace ScriptCheck.Toml

/-- Blanks within a line. -/
def isSpace (c : Char) : Bool := c == ' ' || c == '\t'

def skipSpace (text : Text) : Text := text.dropWhile isSpace

/-- Characters that may stand in strings and comments as they are. -/
def isPlain (c : Char) : Bool := c == '\t' || (32 ≤ c.toNat && c.toNat != 127)

/-- The rest of a text behind the newline it starts with. -/
def afterNewline? : Text → Option Text
  | '\n' :: rest => some rest
  | '\r' :: '\n' :: rest => some rest
  | _ => none

/-! ### Strings -/

def hexDigit? (c : Char) : Option Nat :=
  if c.isDigit then some (c.toNat - 48)
  else if 'a' ≤ c ∧ c ≤ 'f' then some (c.toNat - 87)
  else if 'A' ≤ c ∧ c ≤ 'F' then some (c.toNat - 55)
  else none

/-- The character whose code point some hexadecimal digits write. -/
def hexChar? (digits : List Char) : Option Char := do
  let code ← digits.foldlM (fun code digit => do pure (code * 16 + (← hexDigit? digit))) 0
  if code < 0xD800 ∨ (0xE000 ≤ code ∧ code < 0x110000) then some (Char.ofNat code) else none

/-- The character that an escaped one stands for. -/
def escaped? : Char → Option Char
  | 'b' => some '\x08'
  | 't' => some '\t'
  | 'n' => some '\n'
  | 'f' => some '\x0c'
  | 'r' => some '\r'
  | '\x22' => some '\x22'
  | '\\' => some '\\'
  | _ => none

/-- A string in double quotes, behind the opening quote. -/
def readBasic : Text → Option (Text × Text)
  | [] => none
  | '\x22' :: rest => some ([], rest)
  | '\\' :: 'u' :: a :: b :: c :: d :: rest => do
    let char ← hexChar? [a, b, c, d]
    let (chars, rest) ← readBasic rest
    pure (char :: chars, rest)
  | '\\' :: 'U' :: a :: b :: c :: d :: e :: f :: g :: h :: rest => do
    let char ← hexChar? [a, b, c, d, e, f, g, h]
    let (chars, rest) ← readBasic rest
    pure (char :: chars, rest)
  | '\\' :: c :: rest => do
    let char ← escaped? c
    let (chars, rest) ← readBasic rest
    pure (char :: chars, rest)
  | c :: rest =>
    if isPlain c ∧ c ≠ '\\' then (readBasic rest).map fun (chars, rest) => (c :: chars, rest)
    else none

/-- A string in single quotes, behind the opening quote. -/
def readLiteral : Text → Option (Text × Text)
  | [] => none
  | '\x27' :: rest => some ([], rest)
  | c :: rest =>
    if isPlain c then (readLiteral rest).map fun (chars, rest) => (c :: chars, rest) else none

/-- Behind three quotes that close a string: up to two further quotes belong to it. -/
def closing (quote : Char) (text : Text) : Text × Text :=
  let extra := min 2 (text.takeWhile (· == quote)).length
  (text.take extra, text.drop extra)

/-- A string in three double quotes, behind the opening ones. A backslash at the end of a
line joins it with the next text; `joining` is true while blanks are passed over. -/
def readLongBasic (joining : Bool) : Text → Option (Text × Text)
  | [] => none
  | '\x22' :: '\x22' :: '\x22' :: rest => some (closing '\x22' rest)
  | '\\' :: 'u' :: a :: b :: c :: d :: rest => do
    let char ← hexChar? [a, b, c, d]
    let (chars, rest) ← readLongBasic false rest
    pure (char :: chars, rest)
  | '\\' :: 'U' :: a :: b :: c :: d :: e :: f :: g :: h :: rest => do
    let char ← hexChar? [a, b, c, d, e, f, g, h]
    let (chars, rest) ← readLongBasic false rest
    pure (char :: chars, rest)
  | '\\' :: c :: rest =>
    if (afterNewline? (skipSpace (c :: rest))).isSome then
      readLongBasic true rest
    else do
      let char ← escaped? c
      let (chars, rest) ← readLongBasic false rest
      pure (char :: chars, rest)
  | '\r' :: '\n' :: rest =>
    if joining then readLongBasic true rest
    else (readLongBasic false rest).map fun (chars, rest) => ('\n' :: chars, rest)
  | c :: rest =>
    if joining ∧ (isSpace c ∨ c = '\n') then
      readLongBasic true rest
    else if (isPlain c ∧ c ≠ '\\') ∨ c = '\n' then
      (readLongBasic false rest).map fun (chars, rest) => (c :: chars, rest)
    else
      none

/-- A string in three single quotes, behind the opening ones. -/
def readLongLiteral : Text → Option (Text × Text)
  | [] => none
  | '\x27' :: '\x27' :: '\x27' :: rest => some (closing '\x27' rest)
  | '\r' :: '\n' :: rest => (readLongLiteral rest).map fun (chars, rest) => ('\n' :: chars, rest)
  | c :: rest =>
    if isPlain c ∨ c = '\n' then
      (readLongLiteral rest).map fun (chars, rest) => (c :: chars, rest)
    else
      none

/-- A string of any kind. A newline right behind three opening quotes is not part of it. -/
def readString : Text → Option (Text × Text)
  | '\x22' :: '\x22' :: '\x22' :: rest => readLongBasic false ((afterNewline? rest).getD rest)
  | '\x27' :: '\x27' :: '\x27' :: rest => readLongLiteral ((afterNewline? rest).getD rest)
  | '\x22' :: rest => readBasic rest
  | '\x27' :: rest => readLiteral rest
  | _ => none

/-! ### Numbers -/

/-- Digits behind the first one; single underscores may stand between them. -/
def moreDigits (isDigit : Char → Bool) : Text → Text × Text
  | '_' :: c :: rest =>
    if isDigit c then
      let (digits, rest) := moreDigits isDigit rest
      (c :: digits, rest)
    else
      ([], '_' :: c :: rest)
  | c :: rest =>
    if isDigit c then
      let (digits, rest) := moreDigits isDigit rest
      (c :: digits, rest)
    else
      ([], c :: rest)
  | [] => ([], [])

/-- At least one digit. -/
def readDigits (isDigit : Char → Bool) : Text → Option (Text × Text)
  | c :: rest =>
    if isDigit c then
      let (digits, rest) := moreDigits isDigit rest
      some (c :: digits, rest)
    else
      none
  | [] => none

/-- The digits of a whole number, which has no leading zeros. -/
def readWhole : Text → Option (Text × Text)
  | '0' :: rest => some (['0'], rest)
  | text => readDigits Char.isDigit text

/-- A sign, if there is one: whether it is a minus, and the rest. -/
def readSign : Text → Bool × Text
  | '+' :: rest => (false, rest)
  | '-' :: rest => (true, rest)
  | text => (false, text)

/-- The number that digits write in a base. -/
def digitsIn (base : Nat) (digits : Text) : Nat :=
  digits.foldl (fun value digit => value * base + (hexDigit? digit).getD 0) 0

/-- A whole number, if 64 bits with a sign can hold it. -/
def inRange? (value : Int) : Option Toml :=
  if -Int.pow 2 63 ≤ value ∧ value < Int.pow 2 63 then some (integer value) else none

/-- A number in another base behind its mark. -/
def readBased (base : Nat) (isDigit : Char → Bool) (text : Text) : Option (Toml × Text) := do
  let (digits, rest) ← readDigits isDigit text
  pure (← inRange? (digitsIn base digits), rest)

def readInteger : Text → Option (Toml × Text)
  | '0' :: 'x' :: rest => readBased 16 (fun c => (hexDigit? c).isSome) rest
  | '0' :: 'o' :: rest => readBased 8 (fun c => '0' ≤ c ∧ c ≤ '7') rest
  | '0' :: 'b' :: rest => readBased 2 (fun c => c == '0' || c == '1') rest
  | text => do
    let (negative, rest) := readSign text
    let (digits, rest) ← readWhole rest
    let value : Int := digitsIn 10 digits
    pure (← inRange? (if negative then -value else value), rest)

/-- The exponent of a number behind its mark. -/
def readExponent (text : Text) : Option (Int × Text) := do
  let (negative, rest) := readSign text
  let (digits, rest) ← readDigits Char.isDigit rest
  let value : Int := digitsIn 10 digits
  pure (if negative then -value else value, rest)

/-- Whether a number is too large for a binary floating point value. -/
def overflows (digits : Nat) (exponent : Int) : Bool :=
  if digits = 0 then false
  else if exponent < 0 then (Binary64.round? digits (Nat.pow 10 (min 400 exponent.natAbs))).isNone
  else 400 < exponent || (Binary64.round? (digits * Nat.pow 10 exponent.toNat) 1).isNone

/-- A number with a fraction, an exponent or both, or one of the special values. A positive
number may not be too large. -/
def readFloat (text : Text) : Option (Toml × Text) := do
  let (negative, rest) := readSign text
  match rest with
  | 'i' :: 'n' :: 'f' :: rest => pure (float, rest)
  | 'n' :: 'a' :: 'n' :: rest => pure (float, rest)
  | _ =>
    let (whole, rest) ← readWhole rest
    let (fraction, exponent, rest) ← match rest with
      | '.' :: rest => do
        let (fraction, rest) ← readDigits Char.isDigit rest
        match rest with
        | c :: behind =>
          if c = 'e' ∨ c = 'E' then do
            let (exponent, rest) ← readExponent behind
            pure (fraction, exponent, rest)
          else
            pure (fraction, 0, rest)
        | [] => pure (fraction, 0, rest)
      | c :: behind =>
        if c = 'e' ∨ c = 'E' then do
          let (exponent, rest) ← readExponent behind
          pure ([], exponent, rest)
        else
          none
      | [] => none
    if !negative ∧ overflows (digitsIn 10 (whole ++ fraction)) (exponent - fraction.length) then
      none
    else
      pure (float, rest)

/-! ### Dates -/

/-- A number of exactly so many digits within bounds. -/
def readFixed (count least most : Nat) (text : Text) : Option (Nat × Text) :=
  let digits := text.take count
  let value := digitsIn 10 digits
  if digits.length = count ∧ digits.all Char.isDigit ∧ least ≤ value ∧ value ≤ most then
    some (value, text.drop count)
  else
    none

/-- The rest behind a given character. -/
def expect (c : Char) : Text → Option Text
  | next :: rest => if next = c then some rest else none
  | [] => none

def isLeapYear (year : Nat) : Bool := year % 4 == 0 && (year % 100 != 0 || year % 400 == 0)

def daysIn (year month : Nat) : Nat :=
  if month = 2 then (if isLeapYear year then 29 else 28)
  else if month = 4 ∨ month = 6 ∨ month = 9 ∨ month = 11 then 30
  else 31

/-- A day; the rest of the text is given. -/
def readDay (text : Text) : Option Text := do
  let (year, rest) ← readFixed 4 0 9999 text
  let (month, rest) ← readFixed 2 1 12 (← expect '-' rest)
  let (_, rest) ← readFixed 2 1 (daysIn year month) (← expect '-' rest)
  pure rest

/-- A time of day. A fraction of a second has at least one digit. -/
def readTime (text : Text) : Option Text := do
  let (_, rest) ← readFixed 2 0 23 text
  let (_, rest) ← readFixed 2 0 59 (← expect ':' rest)
  let (_, rest) ← readFixed 2 0 60 (← expect ':' rest)
  match rest with
  | '.' :: c :: behind =>
    if c.isDigit then pure (behind.dropWhile Char.isDigit) else pure rest
  | _ => pure rest

/-- An offset from universal time, if there is one. -/
def skipOffset (text : Text) : Text :=
  match text with
  | 'Z' :: rest => rest
  | 'z' :: rest => rest
  | c :: rest =>
    if c = '+' ∨ c = '-' then
      (do
        let (_, rest) ← readFixed 2 0 23 rest
        let (_, rest) ← readFixed 2 0 59 (← expect ':' rest)
        pure rest).getD text
    else
      text
  | [] => []

/-- A day, a time, or both with or without an offset. -/
def readDate (text : Text) : Option (Toml × Text) :=
  match readDay text with
  | some rest =>
    match rest with
    | c :: behind =>
      if c = 'T' ∨ c = 't' ∨ c = ' ' then
        match readTime behind with
        | some rest => some (date, skipOffset rest)
        | none => some (date, rest)
      else
        some (date, rest)
    | [] => some (date, rest)
  | none => (readTime text).map fun rest => (date, rest)

/-- A number or a date. -/
def readNumeral (text : Text) : Option (Toml × Text) :=
  (readDate text).or ((readFloat text).or (readInteger text))

end ScriptCheck.Toml
