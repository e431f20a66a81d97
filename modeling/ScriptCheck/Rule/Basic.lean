import ScriptCheck.Finding
import ScriptCheck.Layout
import ScriptCheck.Pattern.Search
import ScriptCheck.Text.Position

/-!
# Rules

A rule looks for a pattern, confirms each match by a closer look at the text around
it, and may offer a remedy. The closer look is a check: it answers yes or no, may keep
answers for later matches of the same search, and may fail, for instance at a cut that
does not exist. A check that fails at one match costs the rule all its findings.
-/

namespace ScriptCheck

/-- What a check may look at: a match, the text it is in, the layout of that text, and
the names known from outside it. -/
structure Site where
  text : Text
  layout : Layout
  known : Text → Bool
  found : Match

/-- The answers kept during one search, by key. -/
abbrev Memo := List (Text × Bool)

/-- A computation that may keep answers and may fail. -/
abbrev Check (α : Type) := StateT Memo Option α

namespace Check

/-- The answer kept under a key; the first time, the computed answer is kept. -/
def remember (key : Text) (compute : Unit → Bool) : Check Bool := fun memo =>
  match memo.lookup key with
  | some answer => some (answer, memo)
  | none =>
    let answer := compute ()
    some (answer, (key, answer) :: memo)

/-- A value that may be missing; without it the check fails. -/
def need {α : Type} (value : Option α) : Check α := fun memo => value.map fun a => (a, memo)

/-- How far an offset lies behind another one; if it lies in front, the check fails. -/
def distance (offset start : Nat) : Check Nat :=
  need (if start ≤ offset then some (offset - start) else none)

end Check

structure Rule where
  id : String
  pattern : Pattern
  message : String
  severity : Severity
  /-- The closer look at a match; without one every match counts. -/
  confirm : Option (Site → Check Bool)
  remedy : Option Remedy

namespace Rule

def isFixable (rule : Rule) : Bool := rule.remedy.isSome

/-- The matches that the check confirms, in order. -/
def confirmed (check : Match → Check Bool) : List Match → Check (List Match)
  | [] => pure []
  | found :: rest => do
    let holds ← check found
    let others ← confirmed check rest
    pure (if holds then found :: others else others)

/-- The finding that a match of the rule's pattern in a text stands for. -/
def finding (rule : Rule) (text : Text) (found : Match) : Finding where
  rule := rule.id
  severity := rule.severity
  message := rule.message
  line := some (text.lineNumber found.start)
  column := some (text.columnNumber found.start)
  offset := found.start
  length := found.whole.width
  matched := found.body
  groups := found.texts
  remedy := rule.remedy

/-- Those of some matches in a text that the check of a rule confirms. -/
def acceptedAmong? (rule : Rule) (known : Text → Bool) (text : Text) (candidates : List Match) :
    Option (List Match) :=
  match rule.confirm with
  | none => some candidates
  | some check =>
    let layout := text.layout
    (confirmed (fun found => check ⟨text, layout, known, found⟩) candidates).run' []

/-- The findings that some matches in a text stand for; `none` when the check of the rule
fails. -/
def findingsAmong? (rule : Rule) (known : Text → Bool) (text : Text) (candidates : List Match) :
    Option (List Finding) :=
  (rule.acceptedAmong? known text candidates).map fun found => found.map (rule.finding text)

/-- The matches of a rule's pattern that its check confirms. -/
def accepted? (rule : Rule) (known : Text → Bool) (text : Text) : Option (List Match) :=
  rule.acceptedAmong? known text (rule.pattern.allMatches text)

/-- The findings of one rule in a text, left to right; `none` when its check fails. -/
def findings? (rule : Rule) (known : Text → Bool) (text : Text) : Option (List Finding) :=
  rule.findingsAmong? known text (rule.pattern.allMatches text)

end Rule

end ScriptCheck
