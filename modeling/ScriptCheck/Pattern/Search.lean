import ScriptCheck.Pattern.Basic

/-!
# Searching a text

A search tries the places of a text from left to right. The matches of a pattern do
not overlap: the next one starts where the last one stopped or later, and an empty one
does not count where another match has just stopped.
-/

namespace ScriptCheck

/-- A match: the piece as a whole, and for each group the piece it took part with. -/
structure Match where
  whole : Piece
  groups : List (Option Piece)

namespace Match

/-- The piece of a group, counted from one, if it took part in the match. -/
def group? (found : Match) (number : Nat) : Option Piece :=
  match number with
  | 0 => some found.whole
  | index + 1 => (found.groups[index]?).join

/-- The byte offset a match starts at. -/
def start (found : Match) : Nat := found.whole.start.offset

/-- The byte offset a match stops at. -/
def stop (found : Match) : Nat := found.whole.stop.offset

/-- The text of a match. -/
def body (found : Match) : Text := found.whole.body

/-- The texts of the whole match and of every group, in the order of their numbers. -/
def texts (found : Match) : List (Option Text) :=
  some found.body :: found.groups.map fun piece => piece.map Piece.body

end Match

namespace Pattern

/-- What a pattern matches at a place. -/
def matchAt? (pattern : Pattern) (cursor : Cursor) : Option Match :=
  (pattern.ends ⟨cursor, []⟩).head?.map fun reading =>
    { whole := ⟨cursor, reading.cursor⟩
      groups := (List.range pattern.groupCount).map fun index =>
        reading.groups.lookup (index + 1) }

/-- The matches at the given places, `last` being where the match before them stopped. -/
def matchesFrom (pattern : Pattern) (last : Option Nat) : List Cursor → List Match
  | [] => []
  | cursor :: rest =>
    if last.any (cursor.offset < ·) then
      pattern.matchesFrom last rest
    else
      match pattern.matchAt? cursor with
      | none => pattern.matchesFrom last rest
      | some found =>
        if found.stop = cursor.offset ∧ last = some cursor.offset then
          pattern.matchesFrom last rest
        else
          found :: pattern.matchesFrom (some found.stop) rest

/-- The matches of a pattern in a text, from left to right. -/
def allMatches (pattern : Pattern) (text : Text) : List Match :=
  pattern.matchesFrom none (Cursor.all text)

/-- The leftmost match of a pattern in a text. -/
def firstMatch? (pattern : Pattern) (text : Text) : Option Match :=
  (Cursor.all text).findSome? pattern.matchAt?

/-- Whether a pattern matches somewhere in a text. -/
def occursIn (pattern : Pattern) (text : Text) : Bool := (pattern.firstMatch? text).isSome

end Pattern

end ScriptCheck
