import ScriptCheck.Rule.Basic
import ScriptCheck.Rule.Phrase

/-!
# Delimiters left open

Three rules report the outermost brace, the outermost parenthesis and the first string
that the text never closes. What is missing could belong anywhere, so they offer no
remedy. A console call left open on its line has one: the missing parentheses go behind
the last code of the line, in front of a final semicolon and of a trailing comment.
-/

namespace ScriptCheck.Delimiter

open Pattern Phrase

def consoleCall : Pattern :=
  sequence
    [edge, lit "console.",
     litOf ["log", "info", "warn", "error", "debug", "trace", "table"], gap, lit "(",
     many (· != '\n'), anchor .lineEnd]

/-- The call is in code, nothing closes its parenthesis, and no string on its line is left
open, since closers would end up inside that string. -/
def isCallOpen (site : Site) : Bool :=
  let call := site.found.body
  call.any (· == '(') &&
    let opened := site.found.start + Text.width (call.takeWhile (· ≠ '('))
    site.layout.inCode site.found.start && (site.layout.matchingClose? opened).isNone &&
      call.balance.string.isNone

/-- Where the last region that is neither blank nor a comment ends, its trailing blanks
left out. `last` is the answer so far. -/
def lastCodeEnd? (text : Text) (last : Nat) : List Region → Option Nat
  | [] => some last
  | region :: rest => do
    let piece ← text.slice? region.start region.stop
    let kept := piece.trimEnd
    lastCodeEnd? text
      (if region.kind = .comment || kept.isEmpty then last else region.start + kept.width) rest

/-- The number of parentheses left open, given how many are open so far. -/
def openParens (depth : Nat) : List (Nat × Char) → Nat
  | [] => depth
  | (_, c) :: rest =>
    openParens (if c = '(' then depth + 1 else if c = ')' then depth - 1 else depth) rest

def closeCall : Remedy := fun matched _ => do
  let split ← lastCodeEnd? matched 0 matched.regions
  let (code, trailing) ← matched.splitAt? split
  let missing := openParens 0 code.codeChars
  if missing = 0 then
    none
  else
    let closers := List.replicate missing ')'
    if code.endsWith [';'] then
      pure (Text.trimEnd code.dropLast ++ closers ++ [';'] ++ trailing)
    else
      pure (code ++ closers ++ trailing)

def unclosedConsoleCall : Rule where
  id := "unclosed-console-call"
  pattern := consoleCall
  message := "Missing closing parenthesis in console call"
  severity := .error
  confirm := some fun site => pure (isCallOpen site)
  remedy := some closeCall

/-- The rule for a delimiter that the balance of the text gives as left open. -/
def leftOpen (id message : String) (delimiter : Char → Bool) (offset : Balance → Option Nat) :
    Rule where
  id := id
  pattern := char delimiter
  message := message
  severity := .error
  confirm := some fun site => pure (offset site.layout.balance == some site.found.start)
  remedy := none

def unclosedBrace : Rule :=
  leftOpen "unclosed-brace" "Unclosed curly brace" (· == '\x7b') Balance.brace

def unclosedParen : Rule :=
  leftOpen "unclosed-paren" "Unclosed parenthesis" (· == '(') Balance.paren

def unclosedString : Rule :=
  leftOpen "unclosed-string" "Unclosed string literal" isQuote Balance.string

end ScriptCheck.Delimiter
