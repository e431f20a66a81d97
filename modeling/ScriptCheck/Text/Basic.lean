/-!
# Texts and byte offsets

A text is its list of characters. Positions in it are byte offsets into its UTF-8
form, so a position may fall inside a character or past the end. The operations
that cut a text at an offset answer `none` in both cases; they never round an
offset to a neighbouring character.
-/

namespace ScriptCheck

/-- A source text, character by character. -/
abbrev Text := List Char

namespace Text

/-- The number of bytes a text takes in UTF-8. -/
def width : Text → Nat
  | [] => 0
  | c :: rest => c.utf8Size + width rest

/-- Cut a text at a byte offset. There is no cut past the end or inside a character. -/
def splitAt? : Text → Nat → Option (Text × Text)
  | rest, 0 => some ([], rest)
  | [], _ + 1 => none
  | c :: rest, offset + 1 =>
    if c.utf8Size ≤ offset + 1 then
      (splitAt? rest (offset + 1 - c.utf8Size)).map fun (left, right) => (c :: left, right)
    else
      none

/-- The text before a byte offset. -/
def upTo? (text : Text) (offset : Nat) : Option Text :=
  (text.splitAt? offset).map Prod.fst

/-- The text from a byte offset on. -/
def from? (text : Text) (offset : Nat) : Option Text :=
  (text.splitAt? offset).map Prod.snd

/-- The three parts of a text around the `length` bytes that start at `offset`. -/
def cut? (text : Text) (offset length : Nat) : Option (Text × Text × Text) := do
  let (left, rest) ← text.splitAt? offset
  let (middle, right) ← Text.splitAt? rest length
  pure (left, middle, right)

/-- The text between two byte offsets. A span that runs backwards has none. -/
def slice? (text : Text) (start stop : Nat) : Option Text :=
  if start ≤ stop then
    (text.cut? start (stop - start)).map fun (_, middle, _) => middle
  else
    none

/-- The characters of a text, each with the byte offset of its first byte, counted
from `offset`. -/
def placedFrom (offset : Nat) : Text → List (Nat × Char)
  | [] => []
  | c :: rest => (offset, c) :: placedFrom (offset + c.utf8Size) rest

/-- Whether the text starts with the given one. -/
def startsWith (text start : Text) : Bool := start.isPrefixOf text

/-- Whether the text ends with the given one. -/
def endsWith (text ending : Text) : Bool := ending.isSuffixOf text

/-- Whether the given text occurs somewhere in this one. -/
def contains (text part : Text) : Bool :=
  text.startsWith part || match text with
    | [] => false
    | _ :: rest => contains rest part

end Text

end ScriptCheck
