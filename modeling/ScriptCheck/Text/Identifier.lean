import ScriptCheck.Text.Basic

/-!
# Identifier characters and whole words

Words are delimited by characters that cannot continue an identifier. Only ASCII
letters, digits, the underscore and the dollar sign continue one here; a letter
outside ASCII delimits a word like any punctuation does.
-/

namespace ScriptCheck

/-- The characters that continue an identifier for the purpose of delimiting words. -/
def isIdentifierChar (c : Char) : Bool := c.isAlphanum || c == '_' || c == '$'

namespace Text

/-- No identifier character stands here: the text ends, or another character follows. -/
def delimits (neighbour : Option Char) : Bool := !neighbour.any isIdentifierChar

/-- The first `word` of `text` is delimited on both sides, `previous` being the character
in front of the text; or some later one is. -/
def containsWordAfter (word : Text) (previous : Option Char) (text : Text) : Bool :=
  (text.startsWith word && delimits previous && delimits (text.drop word.length).head?) ||
    match text with
    | [] => false
    | c :: rest => containsWordAfter word (some c) rest

/-- Whether a word occurs in a text with no identifier character on either side. -/
def containsWord (text word : Text) : Bool := containsWordAfter word none text

end Text

end ScriptCheck
