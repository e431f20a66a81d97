import ScriptCheck.Pattern.Basic
import ScriptCheck.Text.Blank
import ScriptCheck.Text.Identifier

/-!
# Phrases of the language

Pieces of pattern that several rules look for: gaps, names, assignment and update
operators, and the keywords that declare a variable.
-/

namespace ScriptCheck.Phrase

open Pattern

/-- Whether a character is one of the listed ones. -/
def among (chars : String) (c : Char) : Bool := chars.toList.contains c

/-- Whether a character is none of the listed ones. -/
def notAmong (chars : String) (c : Char) : Bool := !among chars c

/-- A character that can start a name. -/
def startsName (c : Char) : Bool := c.isAlpha || c == '_' || c == '$'

/-- A character that can go on a name, in any script. -/
def continuesName (c : Char) : Bool := isWordChar c || c == '$'

/-- Spaces and tabs, if any. -/
def gap : Pattern := many (among " \t")

/-- Blank characters, newlines included, if any. -/
def blanks : Pattern := many isBlank

/-- At least one blank character. -/
def someBlanks : Pattern := many1 isBlank

/-- A name. -/
def name : Pattern := seq (char startsName) (many continuesName)

/-- The keywords that declare a variable. -/
def declarator : Pattern := litOf ["const", "let", "var"]

/-- An increment or decrement. -/
def update : Pattern := litOf ["++", "--"]

/-- The operator in front of the equals sign of a compound assignment. -/
def compound : Pattern :=
  choice [char (among "-+*/%&|^"), lit "**", lit "<<", seq (lit ">>") (optional (lit ">")),
    lit "??", lit "&&", lit "||"]

/-- An assignment up to its equals sign. -/
def assignment : Pattern := seq (optional compound) (lit "=")

/-- A place where a name starts afresh: the start of the text, or behind a character that
neither continues a name nor selects a member. -/
def freshName : Pattern :=
  either (anchor .textStart) (char fun c => !continuesName c && c != '.')

end ScriptCheck.Phrase
