import ScriptCheck.Output.Lines
import ScriptCheck.Output.Structured

/-!
# Output formats

Every result is two streams of text: the result itself, and what is said beside it.
-/

namespace ScriptCheck.Output

/-- What a program writes to its two streams. -/
structure Streams where
  out : String
  err : String
  deriving DecidableEq, Repr

inductive Format where
  | pretty
  | json
  | compact
  | github
  deriving DecidableEq, Repr

/-- Lines, each with its newline. -/
def joinLines (lines : List String) : String := String.join (lines.map (· ++ "\n"))

/-- A survey in a format. -/
def Format.render (survey : Survey) : Format → Streams
  | pretty => ⟨joinLines (prettyLines survey), ""⟩
  | json => ⟨joinLines [String.ofList (surveyJson survey).pretty], ""⟩
  | compact => ⟨joinLines (linesBy compactLine survey), joinLines [plainTotal survey]⟩
  | github => ⟨joinLines (linesBy workflowLine survey), joinLines [plainTotal survey]⟩

end ScriptCheck.Output
