import ScriptCheck.Pattern.Search
import ScriptCheck.Text.Blank
import ScriptCheck.Text.Digit

/-!
# Diagnostics of a parser

A parser may be asked before the rules whether a text parses. What it has to say is a
message and, if it knows it, a line. A line may also be recovered from the message,
where it stands as `line 12` or as a pair of numbers such as `(12:4)`.
-/

namespace ScriptCheck

/-- What a parser says about a text it rejects. -/
structure Diagnostic where
  message : String
  line : Option Nat
  deriving DecidableEq, Repr

/-- The outcome of asking a parser. -/
inductive Verdict where
  | accepted
  | rejected (diagnostic : Diagnostic)
  /-- The parser itself failed. -/
  | failed
  deriving DecidableEq, Repr

namespace Diagnostic

open Pattern

/-- A letter of either case. -/
def letter (lower : Char) : Pattern := char fun c => c.toLower == lower

/-- The word `line` and a number. -/
def namedLine : Pattern :=
  sequence
    [edge, sequence ("line".toList.map letter), many1 isBlank, group 1 (many1 isDecimalDigit)]

/-- A line and a column with a colon between them. -/
def lineAndColumn : Pattern :=
  sequence
    [optional (lit "("), group 1 (many1 isDecimalDigit), lit ":", many1 isDecimalDigit,
     optional (lit ")")]

/-- A number written in ASCII digits, if a 64-bit word can hold it. -/
def number? (digits : Text) : Option Nat :=
  if digits.all Char.isDigit then
    let value := digits.foldl (fun value digit => value * 10 + (digit.toNat - 48)) 0
    if value < Nat.pow 2 64 then some value else none
  else
    none

/-- The line number in the first match of a pattern. There is no line zero. -/
def lineBy? (message : Text) (pattern : Pattern) : Option Nat := do
  let found ← pattern.firstMatch? message
  let digits ← found.group? 1
  (number? digits.body).filter (0 < ·)

/-- The line that a message mentions. -/
def lineIn? (message : String) : Option Nat :=
  [namedLine, lineAndColumn].findSome? (lineBy? message.toList)

/-- A diagnostic of which only the message is known. -/
def ofMessage (message : String) : Diagnostic := ⟨message, lineIn? message⟩

end Diagnostic

end ScriptCheck
