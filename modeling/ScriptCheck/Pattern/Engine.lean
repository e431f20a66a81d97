import ScriptCheck.Pattern.Basic

/-!
# Engines

The patterns of the rules are fixed, but some checks build further ones around a name that
the text holds, and a name can be as long as the text. An engine that searches for patterns
prepares each one first and refuses those that would take more room than it allows.

How much room a pattern takes is the engine's own affair and is not described here. Which
patterns an engine takes is therefore left open, and what is said about the rules holds for
every engine. What a check does with a pattern that is refused is part of the check.
-/

namespace ScriptCheck

/-- What is left open about the engine: which patterns it takes. -/
class Engine where
  takes : Pattern → Bool

/-- The engine that takes every pattern. -/
@[reducible]
def Engine.unlimited : Engine := ⟨fun _ => true⟩

end ScriptCheck
