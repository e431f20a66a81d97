import ScriptCheck.Json.Value
import ScriptCheck.Number.Shortest

/-!
# Writing JSON

A value is written on one line without blanks, or over several lines with two blanks
for each level. Only quotes, backslashes and control characters are escaped. A binary
number is written with its shortest digits: positionally while its leading digit stands
for ten to the power -5 to 15, with an exponent otherwise.
-/

namespace ScriptCheck.Json

/-- The decimal digits of a number. -/
def digitsOf (n : Nat) : Text := Nat.toDigits 10 n

/-- A whole number with its sign. -/
def wholeText (value : Int) : Text :=
  if value < 0 then '-' :: digitsOf value.natAbs else digitsOf value.natAbs

/-- A decimal, positional or with an exponent. -/
def decimalText (decimal : Decimal) : Text :=
  let digits := digitsOf decimal.digits
  let point : Int := digits.length + decimal.exponent
  if 0 ≤ decimal.exponent ∧ point ≤ 16 then
    digits ++ List.replicate decimal.exponent.toNat '0' ++ ".0".toList
  else if 0 < point ∧ point ≤ 16 then
    digits.take point.toNat ++ '.' :: digits.drop point.toNat
  else if -5 < point ∧ point ≤ 0 then
    "0.".toList ++ List.replicate (-point).toNat '0' ++ digits
  else
    let mark := 'e' :: wholeText (point - 1)
    match digits with
    | [digit] => digit :: mark
    | digit :: rest => digit :: '.' :: rest ++ mark
    | [] => mark

def numberText : JsonNumber → Text
  | .whole value => wholeText value
  | .binary negative magnitude =>
    (if negative then ['-'] else []) ++ decimalText magnitude.shortest

/-- A hexadecimal digit. -/
def hexDigit (n : Nat) : Char := Nat.digitChar n

/-- A character as it is written inside a string. -/
def escapeChar (c : Char) : Text :=
  match c with
  | '\x22' => "\\\"".toList
  | '\\' => "\\\\".toList
  | '\n' => "\\n".toList
  | '\r' => "\\r".toList
  | '\t' => "\\t".toList
  | '\x08' => "\\b".toList
  | '\x0c' => "\\f".toList
  | _ =>
    if c.toNat < 32 then "\\u00".toList ++ [hexDigit (c.toNat / 16), hexDigit (c.toNat % 16)]
    else [c]

/-- A string in quotes. -/
def stringText (value : Text) : Text := '\x22' :: value.flatMap escapeChar ++ ['\x22']

/-- Texts with a comma after each but the last. -/
def commaSeparated : List Text → Text
  | [] => []
  | [last] => last
  | first :: rest => first ++ ',' :: commaSeparated rest

mutual

/-- A value on one line. -/
def compact : Json → Text
  | null => "null".toList
  | bool true => "true".toList
  | bool false => "false".toList
  | number value => numberText value
  | string value => stringText value
  | array items => '[' :: commaSeparated (compactItems items) ++ [']']
  | object members => '\x7b' :: commaSeparated (compactMembers members) ++ ['\x7d']

def compactItems : List Json → List Text
  | [] => []
  | item :: rest => compact item :: compactItems rest

def compactMembers : List (Text × Json) → List Text
  | [] => []
  | (name, value) :: rest => (stringText name ++ ':' :: compact value) :: compactMembers rest

end

/-- A line break and the blanks of a level. -/
def lineBreak (level : Nat) : Text := '\n' :: List.replicate (2 * level) ' '

/-- Items on lines of their own between brackets; without items the brackets alone. -/
def bracketed (opener closer : Char) (level : Nat) (items : List Text) : Text :=
  if items.isEmpty then [opener, closer]
  else
    opener :: commaSeparated (items.map (lineBreak (level + 1) ++ ·)) ++ lineBreak level ++ [closer]

mutual

/-- A value over several lines, at a level of indentation. -/
def indented (level : Nat) : Json → Text
  | array items => bracketed '[' ']' level (indentedItems (level + 1) items)
  | object members => bracketed '\x7b' '\x7d' level (indentedMembers (level + 1) members)
  | null => "null".toList
  | bool true => "true".toList
  | bool false => "false".toList
  | number value => numberText value
  | string value => stringText value

def indentedItems (level : Nat) : List Json → List Text
  | [] => []
  | item :: rest => indented level item :: indentedItems level rest

def indentedMembers (level : Nat) : List (Text × Json) → List Text
  | [] => []
  | (name, value) :: rest =>
    (stringText name ++ ": ".toList ++ indented level value) :: indentedMembers level rest

end

/-- A value over several lines. -/
def pretty (value : Json) : Text := indented 0 value

end ScriptCheck.Json
