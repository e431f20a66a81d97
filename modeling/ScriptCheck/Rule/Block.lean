import ScriptCheck.Rule.Basic
import ScriptCheck.Rule.Phrase

/-!
# Bodies without braces

Two rules report an `if` or an `else` whose body is a bare statement on the same line.
Their remedy wraps the body in braces and ends it by a semicolon. A body is left alone
when braces in place would not wrap exactly one statement.
-/

namespace ScriptCheck.Block

open Pattern Phrase

/-- A statement with a semicolon at its end, unless a semicolon or a block ends it. -/
def ended (statement : Text) : Text :=
  let trimmed := statement.trimEnd
  if trimmed.endsWith [';'] || trimmed.endsWith ['\x7d'] then trimmed else trimmed ++ [';']

/-- Whether a body can be wrapped where it stands: it has no `else`, no block, no comment
and leaves no bracket or literal open. -/
def isWrappable (body : Text) : Bool :=
  !body.containsWord "else".toList && !body.any (among "\x7b\x7d") &&
    !body.contains "//".toList && !body.contains "/*".toList && body.balance == Balance.even

/-- A statement in braces, with what stands behind it. -/
def wrapped (head body trailing : Text) : Text :=
  head ++ " \x7b ".toList ++ ended body ++ " \x7d".toList ++ trailing

/-- A condition may hold parentheses one level deep. -/
def condition : Pattern :=
  manyRounds (either (char (notAmong "()\n"))
    (sequence [lit "(", many (notAmong "()\n"), lit ")"]))

/-- The blank end of a line. -/
def lineEnding (number : Nat) : Pattern :=
  seq (group number (many (among " \t\r"))) (anchor .lineEnd)

def ifPattern : Pattern :=
  sequence
    [edge, lit "if", gap, lit "(", group 1 condition, lit ")", gap,
     group 2 (seq (char fun c => !isBlank c && notAmong "\x7b;/" c) (run false (· != '\n'))),
     lineEnding 3]

def elsePattern : Pattern :=
  sequence
    [edge, lit "else", many1 (among " \t"),
     group 1 (seq (char fun c => !isBlank c && notAmong "\x7b;" c) (run false (· != '\n'))),
     lineEnding 2]

/-- The text of a group, when there is such a group and it took part. -/
def groupText? (groups : List (Option Text)) (number : Nat) : Option Text := groups[number]?.join

def wrapIf : Remedy := fun _ groups => do
  let condition ← groupText? groups 1
  let body ← groupText? groups 2
  let trailing := (groupText? groups 3).getD []
  pure (wrapped ("if (".toList ++ condition ++ [')']) body trailing)

def wrapElse : Remedy := fun _ groups => do
  let body ← groupText? groups 1
  let trailing := (groupText? groups 2).getD []
  pure (wrapped "else".toList body trailing)

/-- Whether the body of an `else` is a chained `if`. -/
def isChained (body : Text) : Check Bool :=
  if body.startsWith "if".toList then do
    let rest ← Check.need (body.from? 2)
    pure (Text.delimits rest.head?)
  else
    pure false

/-- Whether the body of an `else` is a bare statement. -/
def isBareElse (site : Site) : Check Bool :=
  match site.found.group? 1 with
  | none => pure false
  | some body => do
    let chained ← isChained body.body
    pure (!chained && site.layout.inCode site.found.start && isWrappable body.body)

def bareIf : Rule where
  id := "if-without-block"
  pattern := ifPattern
  message := "If statement body should be wrapped in braces"
  severity := .warning
  confirm := some fun site => pure <|
    site.layout.inCode site.found.start &&
      (site.found.group? 2).any fun body => isWrappable body.body
  remedy := some wrapIf

def bareElse : Rule where
  id := "else-without-block"
  pattern := elsePattern
  message := "Else body should be wrapped in braces"
  severity := .warning
  confirm := some isBareElse
  remedy := some wrapElse

end ScriptCheck.Block
