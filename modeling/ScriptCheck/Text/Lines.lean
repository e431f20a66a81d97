import ScriptCheck.Text.Utf8

/-!
# Lines

A text is cut into lines by its characters and a stream by its bytes, in the same way. A
newline ends a line, and a carriage return in front of it is left out. The empty piece behind
a final newline is no line.
-/

namespace ScriptCheck

/-- What ends a line. -/
structure LineMarks (α : Type) where
  newline : α
  carriageReturn : α

namespace LineMarks

variable {α : Type} [DecidableEq α]

/-- Drop the carriage return that ends a line, given the line back to front. -/
def dropReturn (marks : LineMarks α) : List α → List α
  | [] => []
  | last :: rest => if last = marks.carriageReturn then rest else last :: rest

/-- Split at newlines; `current` holds the line so far, back to front. -/
def linesFrom (marks : LineMarks α) (current : List α) : List α → List (List α)
  | [] => if current.isEmpty then [] else [current.reverse]
  | item :: rest =>
    if item = marks.newline then (marks.dropReturn current).reverse :: linesFrom marks [] rest
    else linesFrom marks (item :: current) rest

def lines (marks : LineMarks α) (items : List α) : List (List α) := marks.linesFrom [] items

end LineMarks

namespace Text

abbrev lineMarks : LineMarks Char := ⟨'\n', '\r'⟩

/-- The lines of a text. -/
def lines (text : Text) : List Text := lineMarks.lines text

end Text

namespace Bytes

abbrev lineMarks : LineMarks UInt8 := ⟨10, 13⟩

/-- The lines of a stream. -/
def lines (bytes : Bytes) : List Bytes := lineMarks.lines bytes

end Bytes

end ScriptCheck
