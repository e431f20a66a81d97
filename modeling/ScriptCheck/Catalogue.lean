import ScriptCheck.Rule.Block
import ScriptCheck.Rule.Call
import ScriptCheck.Rule.Delimiter
import ScriptCheck.Rule.Reassignment
import ScriptCheck.Rule.Return
import ScriptCheck.Rule.Semicolon
import ScriptCheck.Rule.Spelling

/-!
# The catalogue of rules

Rules are kept in the order in which their findings are reported. The same order
decides which of two remedies for the same text is taken.
-/

namespace ScriptCheck

structure Catalogue where
  rules : List Rule

/-- A rule was named that the catalogue does not have. -/
structure UnknownRule where
  id : String
  available : List String
  deriving DecidableEq, Repr

def UnknownRule.message (unknown : UnknownRule) : String :=
  s!"unknown rule '{unknown.id}'. available rules: " ++ ", ".intercalate unknown.available

namespace Catalogue

/-- Every built-in rule. -/
def builtin [Engine] : Catalogue where
  rules :=
    [Semicolon.missing, Block.bareIf, Block.bareElse, Reassignment.constant,
     Spelling.functionKeyword, Spelling.documentName, Spelling.elementLookup,
     Delimiter.unclosedConsoleCall, Delimiter.unclosedBrace, Delimiter.unclosedParen,
     Delimiter.unclosedString, Return.missing, Call.undefined]

def ids (catalogue : Catalogue) : List String := catalogue.rules.map Rule.id

def size (catalogue : Catalogue) : Nat := catalogue.rules.length

/-- The first rule of a name. -/
def get? (catalogue : Catalogue) (id : String) : Option Rule :=
  catalogue.rules.find? fun rule => rule.id == id

/-- The catalogue without the named rules. A name that no rule has is refused, so that a
misspelled name does not leave a rule in place unnoticed. -/
def without (catalogue : Catalogue) (ids : List String) : Except UnknownRule Catalogue :=
  match ids.find? fun id => !catalogue.ids.contains id with
  | some id => .error ⟨id, catalogue.ids⟩
  | none => .ok ⟨catalogue.rules.filter fun rule => !ids.contains rule.id⟩

end Catalogue

end ScriptCheck
