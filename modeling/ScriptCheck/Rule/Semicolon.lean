import ScriptCheck.Rule.Basic
import ScriptCheck.Rule.Phrase

/-!
# Statements without a semicolon

The rule looks at the blank end of every line. It reports the line when what stands in
front of that end is a finished statement in code and the next line does not go on
with it. The remedy puts a semicolon in front of the blank end.
-/

namespace ScriptCheck.Semicolon

open Pattern Phrase

/-- Statement shapes that end in a semicolon: assignments, with or without a declaring
keyword, updates, `return` with a value, and calls. -/
def statement : Pattern :=
  seq (anchor .textStart) <| choice
    [sequence
      [optional (seq declarator someBlanks), name,
       manyRounds (choice
        [sequence [lit ".", name],
         sequence [lit "[", many (notAmong "]"), lit "]"]]),
       blanks, assignment, char (notAmong "=>")],
     sequence
      [char startsName, many (fun c => continuesName c || c == '.'), update, anchor .textEnd],
     seq update (char startsName),
     sequence [lit "return", someBlanks, char fun c => !isBlank c],
     sequence
      [optional (seq (lit "await") someBlanks), name, manyRounds (sequence [lit ".", name]),
       lit "("]]

/-- Words that open something other than a call, whatever follows them. -/
def controlWords : List String :=
  ["if", "for", "while", "switch", "catch", "function", "return", "typeof", "do", "else", "with"]

/-- Characters after which a line is incomplete or already ended. -/
def openEnds : String := ";\x7b\x7d([,:=+-*/%&|<>!?.\\"

/-- What a line starts with when it goes on with the line before it. -/
def continuations : List String := [".", "?", ":", "+", "-", "*", "/", ",", ")", "]", "&&", "||"]

/-- Whether a trimmed line is a statement that ends in a semicolon. -/
def isStatement (line : Text) : Bool :=
  statement.occursIn line &&
    let head := String.ofList (line.takeWhile isIdentifierChar)
    head == "return" || !controlWords.contains head

/-- Whether a line, given back to front, may still take a semicolon: it ends in neither a
blank nor an open end, but an update may end in its signs. -/
def mayEnd (before : Text) : Bool :=
  match before with
  | [] => false
  | last :: _ =>
    let updated := before.startsWith "++".toList || before.startsWith "--".toList
    !among " \t\r\n" last && (updated || !among openEnds last)

/-- Whether the text in front of an offset ends in code, or in a literal that ends there.
`last` is the offset of its last byte. -/
def endsInCode (layout : Layout) (offset last : Nat) : Bool :=
  match layout.regionAt? last with
  | some region =>
    match region.kind with
    | .code => true
    | .literal => region.stop == offset
    | _ => false
  | none => false

/-- Whether a line looks like part of a comment. -/
def looksCommented (line : Text) : Bool :=
  line.startsWith "//".toList || line.startsWith "/*".toList || line.startsWith ['*']

/-- Whether no later line goes on with the statement that ends at an offset. -/
def isFinished (text : Text) (offset : Nat) : Bool :=
  match text.nextLine? offset with
  | some next => !continuations.any fun mark => next.startsWith mark.toList
  | none => true

/-- The blank end of a line is missing a semicolon in front of it. -/
def isMissing (site : Site) : Check Bool := do
  let offset := site.found.start
  let before ← Check.need (site.text.upTo? offset)
  if !mayEnd before.reverse then
    pure false
  else
    let last ← Check.distance offset 1
    if !endsInCode site.layout offset last then
      pure false
    else
      let line ← Check.need (before.from? (site.text.lineBounds offset).1)
      pure (!looksCommented line.trim && isStatement line.trim && isFinished site.text offset)

def missing : Rule where
  id := "missing-semicolon"
  pattern := seq (many (among " \t\r")) (anchor .lineEnd)
  message := "Missing semicolon"
  severity := .warning
  confirm := some isMissing
  remedy := some fun matched _ => some (';' :: matched)

end ScriptCheck.Semicolon
