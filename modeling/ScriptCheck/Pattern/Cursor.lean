import ScriptCheck.Text.Basic

/-!
# Places in a text

A cursor stands between two characters of a text and sees both sides: the characters
it has passed, nearest first, and those still ahead. It knows its byte offset. A piece
is the stretch between two cursors of one text.
-/

namespace ScriptCheck

/-- A place between two characters of a text. -/
structure Cursor where
  /-- The characters passed, nearest first. -/
  before : Text
  /-- The characters ahead. -/
  after : Text
  offset : Nat
  placed : offset = before.width

namespace Cursor

/-- The place in front of a text. -/
def start (text : Text) : Cursor := ⟨[], text, 0, rfl⟩

/-- The place behind the next character, which is `c` with `rest` after it. -/
def pass (cursor : Cursor) (c : Char) (rest : Text) : Cursor :=
  ⟨c :: cursor.before, rest, cursor.offset + c.utf8Size, by
    rw [cursor.placed, Text.width, Nat.add_comm]⟩

/-- The places from a cursor on, when `ahead` is what it sees ahead. -/
def onward (cursor : Cursor) : Text → List Cursor
  | [] => [cursor]
  | c :: rest => cursor :: (cursor.pass c rest).onward rest

/-- Every place in a text, from its start to its end. -/
def all (text : Text) : List Cursor := (start text).onward text

end Cursor

/-- The stretch of a text between two of its places. -/
structure Piece where
  start : Cursor
  stop : Cursor

namespace Piece

/-- The characters of a piece. -/
def body (piece : Piece) : Text :=
  piece.start.after.take (piece.start.after.length - piece.stop.after.length)

/-- The number of bytes of a piece. -/
def width (piece : Piece) : Nat := piece.stop.offset - piece.start.offset

end Piece

end ScriptCheck
