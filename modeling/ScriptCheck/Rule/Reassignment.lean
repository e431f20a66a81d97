import ScriptCheck.Pattern.Engine
import ScriptCheck.Rule.Basic
import ScriptCheck.Rule.Phrase

/-!
# Constants that are assigned again

The rule reports the declaration of a constant when the rest of the text assigns or
updates its name. A declaration of the same name is no assignment to the constant. The
remedy declares a variable instead.

The assignments are searched for by a pattern that is built around the name. An engine that
refuses it finds none, and the constant is not reported. From which length of the name on
that happens is not covered: it is up to the engine.
-/

namespace ScriptCheck.Reassignment

open Pattern Phrase

def declaration : Pattern :=
  sequence [edge, lit "const", many1 (among " \t"), group 1 name, gap, lit "="]

/-- An assignment to a name or an update of it. Group one spans from the name or sign it
starts with to the character that shows the equals sign to be an assignment. -/
def assignmentTo (target : Text) : Pattern :=
  seq freshName <| group 1 <| either
    (sequence [update, gap, word target, edge])
    (seq (word target) (either
      (seq gap update)
      (sequence [gap, assignment, either (char (notAmong "=>")) (anchor .textEnd)])))

/-- Whether a text ends in a keyword that declares a variable. -/
def endsInDeclarator (before : Text) : Check Bool :=
  let trimmed := before.trimEnd
  ["let", "var", "const"].anyM fun keyword =>
    if trimmed.endsWith keyword.toList then do
      let rest ← Check.distance trimmed.width (Text.width keyword.toList)
      let front ← Check.need (trimmed.upTo? rest)
      pure (Text.delimits front.getLast?)
    else
      pure false

/-- Whether a match of an assignment behind a declaration assigns the declared name: it
does not declare the name anew, and it stands in code. -/
def isAssignment (site : Site) (found : Match) : Check Bool :=
  match found.group? 1 with
  | none => pure false
  | some target => do
    let behind := site.found.stop
    let before ← Check.need (site.text.upTo? (behind + target.start.offset))
    if ← endsInDeclarator before then
      pure false
    else
      let last ← Check.distance (behind + target.stop.offset) 1
      pure (site.layout.inCode last)

/-- Whether the rest of the text assigns the declared name. Nothing is found with a pattern
that the engine does not take. -/
def isReassigned [Engine] (site : Site) : Check Bool :=
  match site.found.group? 1 with
  | none => pure false
  | some declared =>
    if !site.layout.inCode site.found.start then
      pure false
    else if !Engine.takes (assignmentTo declared.body) then
      pure false
    else do
      let rest ← Check.need (site.text.from? site.found.stop)
      ((assignmentTo declared.body).allMatches rest).anyM (isAssignment site)

def declareVariable : Remedy := fun matched _ =>
  if matched.startsWith "const".toList then some ("let".toList ++ matched.drop 5) else none

def constant [Engine] : Rule where
  id := "const-reassignment"
  pattern := declaration
  message := "Cannot reassign constant variable"
  severity := .error
  confirm := some isReassigned
  remedy := some declareVariable

end ScriptCheck.Reassignment
