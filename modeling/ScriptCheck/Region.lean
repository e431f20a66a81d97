import ScriptCheck.Text.Basic

/-!
# Code, comments and string literals

A script text is cut into segments: stretches of code, comments, and string or
template literals. This is no tokenizer. It knows just enough of the language to keep
brackets and words inside comments and literals apart from those in code.

A line comment stops in front of its newline. A block comment runs to the first
closing mark after its opening one. A literal runs to the next quote of its own kind
that no backslash escapes; except in a template literal, a newline that is not escaped
ends it early. Comments and literals with no end run to the end of the text.

The bodies of the segments, in order, are the text. A region is a segment seen as a
span of byte offsets.
-/

namespace ScriptCheck

/-- What a stretch of text is. -/
inductive Kind where
  | code
  | comment
  /-- A string or template literal with both its delimiters. -/
  | literal
  /-- A literal that its line, or for a template the text, ends before its delimiter. -/
  | unterminated
  deriving DecidableEq, Repr

/-- A maximal stretch of one kind, with its characters. -/
structure Segment where
  kind : Kind
  body : Text
  deriving DecidableEq, Repr

/-- A maximal stretch of one kind, as the byte offsets it starts and stops at. -/
structure Region where
  start : Nat
  stop : Nat
  kind : Kind
  deriving DecidableEq, Repr

/-- The delimiter of template literals, which may span lines. -/
def backquote : Char := '\x60'

/-- The characters that open a literal. -/
def isQuote (c : Char) : Bool := c == '\x22' || c == '\x27' || c == backquote

namespace Segment

/-- A block comment after its opening mark: everything through the first closing mark. -/
def throughCommentEnd : Text → Text
  | '*' :: '/' :: _ => ['*', '/']
  | c :: rest => c :: throughCommentEnd rest
  | [] => []

/-- A literal after its opening quote, and whether it is closed. A backslash takes the
character after it along, whatever that is. -/
def literalTail (quote : Char) : Text → Text × Bool
  | [] => ([], false)
  | ['\\'] => (['\\'], false)
  | '\\' :: c :: rest =>
    let (tail, closed) := literalTail quote rest
    ('\\' :: c :: tail, closed)
  | c :: rest =>
    if c = quote then
      ([c], true)
    else if c = '\n' ∧ quote ≠ backquote then
      ([], false)
    else
      let (tail, closed) := literalTail quote rest
      (c :: tail, closed)

/-- The comment or literal that opens at the start of a text. -/
def opening? : Text → Option Segment
  | '/' :: '/' :: rest => some ⟨.comment, '/' :: '/' :: rest.takeWhile (· ≠ '\n')⟩
  | '/' :: '*' :: rest => some ⟨.comment, '/' :: '*' :: throughCommentEnd rest⟩
  | c :: rest =>
    if isQuote c then
      let (tail, closed) := literalTail c rest
      some ⟨if closed then .literal else .unterminated, c :: tail⟩
    else
      none
  | [] => none

/-- The code gathered so far, last character first; an empty stretch is no segment. -/
def gathered (pending : Text) : List Segment :=
  if pending.isEmpty then [] else [⟨.code, pending.reverse⟩]

/-- Cut a text into segments. `pending` is the code gathered so far, and `inside` counts
the characters that still belong to the comment or literal last opened. -/
def cutFrom (pending : Text) (inside : Nat) : Text → List Segment
  | [] => gathered pending
  | c :: rest =>
    match inside with
    | left + 1 => cutFrom pending left rest
    | 0 =>
      match opening? (c :: rest) with
      | none => cutFrom (c :: pending) 0 rest
      | some segment =>
        gathered pending ++ segment :: cutFrom [] (segment.body.length - 1) rest

/-- The segments laid out from a byte offset on. -/
def placeFrom (offset : Nat) : List Segment → List Region
  | [] => []
  | segment :: rest =>
    let stop := offset + segment.body.width
    ⟨offset, stop, segment.kind⟩ :: placeFrom stop rest

/-- The characters of the code segments with their byte offsets. -/
def codeFrom (offset : Nat) : List Segment → List (Nat × Char)
  | [] => []
  | segment :: rest =>
    (if segment.kind = .code then segment.body.placedFrom offset else []) ++
      codeFrom (offset + segment.body.width) rest

end Segment

namespace Text

/-- The segments of a text. -/
def segments (text : Text) : List Segment := Segment.cutFrom [] 0 text

/-- The regions of a text. -/
def regions (text : Text) : List Region := Segment.placeFrom 0 text.segments

/-- The characters of a text that are code, with their byte offsets. -/
def codeChars (text : Text) : List (Nat × Char) := Segment.codeFrom 0 text.segments

/-- Where the first literal without an end starts. -/
def unterminated? (text : Text) : Option Nat :=
  (text.regions.find? fun region => region.kind = .unterminated).map Region.start

end Text

end ScriptCheck
