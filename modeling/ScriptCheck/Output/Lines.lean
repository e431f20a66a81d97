import ScriptCheck.Output.Pretty

/-!
# One line for each finding

Two plain forms for other programs: `path:line:column` lines, and the commands that
workflow runners turn into annotations. The count of errors and warnings is kept apart
from them.
-/

namespace ScriptCheck.Output

/-- A finding as a line with its place in front. A missing number is taken as one. -/
def compactLine (path : String) (finding : Finding) : String :=
  s!"{path}:{finding.line.getD 1}:{finding.column.getD 1}: " ++
    s!"{finding.severity.label}[{finding.rule}] {finding.message}"

/-- A finding as a workflow command. -/
def workflowLine (path : String) (finding : Finding) : String :=
  let line := match finding.line with
    | some line => s!",line={line}"
    | none => ""
  let column := match finding.column with
    | some column => s!",col={column}"
    | none => ""
  s!"::{finding.severity.label} file={path}{line}{column},title={finding.rule}" ++
    s!"::{finding.message}"

/-- A line for each finding, in order. -/
def linesBy (line : String → Finding → String) (survey : Survey) : List String :=
  survey.files.flatMap fun file => file.findings.map (line file.path)

/-- The count of errors and warnings without colours. -/
def plainTotal (survey : Survey) : String :=
  let counts := [(survey.count .error, "error"), (survey.count .warning, "warning")].filterMap
    fun (n, thing) => if n = 0 then none else some (counted n thing)
  if counts.isEmpty then nothingFound survey
  else ", ".intercalate counts ++ " " ++ scope survey

end ScriptCheck.Output
