import ScriptCheck.Pattern.Engine
import ScriptCheck.Pattern.Reader
import ScriptCheck.Rule.Basic

/-!
# Rules from written patterns

A rule can be made from a pattern in its written form, if it is well formed and the engine
takes it. The check and the remedy are added afterwards.
-/

namespace ScriptCheck

/-- The pattern of a rule is not well formed, or the engine does not take it. -/
structure InvalidPattern where
  rule : String
  deriving DecidableEq, Repr

def InvalidPattern.message (invalid : InvalidPattern) : String :=
  s!"rule '{invalid.rule}': invalid regex"

/-- The rule that reports every match of a written pattern. -/
def Rule.ofWritten [Engine] (id pattern message : String) (severity : Severity) :
    Except InvalidPattern Rule :=
  match (Pattern.read? pattern.toList).filter Engine.takes with
  | some pattern =>
    .ok { id, pattern, message, severity, confirm := none, remedy := none }
  | none => .error ⟨id⟩

end ScriptCheck
