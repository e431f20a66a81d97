import ScriptCheck.Text.Blank
import ScriptCheck.Text.Lines

/-!
# Lines and columns

A newline ends a line and belongs to none. Lines and columns count from one; a column
counts characters. Every offset has a line: one past the end is on the last line, and
one inside a character is on that character's line. Such an offset has no column of
its own and is given column one.
-/

namespace ScriptCheck.Text

/-- The newlines that start strictly before an offset. -/
def newlinesBefore : Text → Nat → Nat
  | _, 0 => 0
  | [], _ + 1 => 0
  | c :: rest, offset + 1 =>
    (if c = '\n' then 1 else 0) + newlinesBefore rest (offset + 1 - c.utf8Size)

/-- The line of an offset, counted from one. -/
def lineNumber (text : Text) (offset : Nat) : Nat := text.newlinesBefore offset + 1

/-- Walk to the line of `offset`. `position` is the offset reached and `start` the start
of its line; a newline before the offset starts a new line, the first other one ends
the search. -/
def lineBoundsFrom (offset position start : Nat) : Text → Nat × Nat
  | [] => (start, position)
  | c :: rest =>
    if c = '\n' then
      if position < offset then
        lineBoundsFrom offset (position + 1) (position + 1) rest
      else
        (start, position)
    else
      lineBoundsFrom offset (position + c.utf8Size) start rest

/-- The offsets at which the line of an offset starts and ends, its newline left out. -/
def lineBounds (text : Text) (offset : Nat) : Nat × Nat := lineBoundsFrom offset 0 0 text

/-- The column of an offset, counted from one in characters. -/
def columnNumber (text : Text) (offset : Nat) : Nat :=
  match text.slice? (text.lineBounds offset).1 offset with
  | some passed => passed.length + 1
  | none => 1

/-- The first later line, trimmed, that is not all blank. -/
def nextLine? (text : Text) (offset : Nat) : Option Text := do
  let rest ← text.from? (text.lineBounds offset).2
  ((lines rest).drop 1).map trim |>.find? fun line => !line.isEmpty

end ScriptCheck.Text
