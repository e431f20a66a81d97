import ScriptCheck.Catalogue
import ScriptCheck.Diagnostic
import ScriptCheck.Globals
import ScriptCheck.Repair

/-!
# Checking a text

A checker asks a parser about a text and then searches it by every rule of a catalogue.
A parser that fails is not heard, and a rule whose check fails reports nothing; neither
disturbs the rest.
-/

namespace ScriptCheck

structure Checker where
  catalogue : Catalogue
  /-- What the parser says about a text. -/
  parse : Text → Verdict
  globals : Globals

namespace Checker

/-- The checker of a catalogue that accepts every text before the rules and knows the
built-in names. -/
def ofCatalogue (catalogue : Catalogue) : Checker where
  catalogue := catalogue
  parse := fun _ => .accepted
  globals := .builtin

/-- The finding for a text that the parser rejects. -/
def parserFinding (diagnostic : Diagnostic) : Finding where
  rule := "syntax-error"
  severity := .error
  message := diagnostic.message
  line := diagnostic.line.or (Diagnostic.lineIn? diagnostic.message)
  column := none
  offset := 0
  length := 0
  matched := []
  groups := []
  remedy := none

/-- The finding of the parser, if any. -/
def parserFindings (checker : Checker) (text : Text) : List Finding :=
  match checker.parse text with
  | .rejected diagnostic => [parserFinding diagnostic]
  | .accepted | .failed => []

/-- The findings of one rule, none when its check fails. -/
def ruleFindings (checker : Checker) (text : Text) (rule : Rule) : List Finding :=
  (rule.findings? checker.globals.knows text).getD []

/-- The findings for a text: the parser's first, then each rule's from left to right. -/
def inspect (checker : Checker) (text : Text) : List Finding :=
  checker.parserFindings text ++ checker.catalogue.rules.flatMap (checker.ruleFindings text)

/-- Apply every remedy that can be applied to a text. -/
def mend (checker : Checker) (text : Text) : Report := Repair.run text (checker.inspect text)

end Checker

end ScriptCheck
