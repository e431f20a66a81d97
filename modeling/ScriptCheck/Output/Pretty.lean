import ScriptCheck.Output.Survey
import ScriptCheck.Output.Wording
import ScriptCheck.Text.Position
import ScriptCheck.Text.Quoted

/-!
# Results for a terminal

Findings grouped by file, each with its place, the line it is on and the change that
would mend it, in colours; a count of errors and warnings comes last.
-/

namespace ScriptCheck.Output

/-- The place of a finding. A finding of the parser has no column and is put at the
first. -/
def place (finding : Finding) : String :=
  match finding.line, finding.column with
  | some line, some column => s!"{line}:{column}"
  | some line, none => s!"{line}:1"
  | none, _ => "-"

/-- The line of the source that a finding is on. The line of a finding without a column
may be a guess and is not shown. -/
def sourceLine? (file : Surveyed) (finding : Finding) : Option Text :=
  match finding.column, finding.line with
  | some _, some (line + 1) => file.source.lines[line]?
  | _, _ => none

/-- A severity in its colour. -/
def severityMark : Severity → String
  | .error => styled "31" "error"
  | .warning => styled "33" "warn "

/-- A text in quotes, without the blanks at its end. -/
def quotedEnd (text : Text) : String := String.ofList (Text.quoted text.trimEnd)

/-- Text behind a mark under the first line of a finding. -/
def detail (mark text : String) : String :=
  "           " ++ styled "90" mark ++ " " ++ text

/-- The first line for a finding. -/
def headLine (finding : Finding) : String :=
  let position := styled "90" (padded 8 (place finding))
  let rule := styled "90" (padded 25 finding.rule)
  let note := if finding.isFixable then " " ++ styled "36" "(fixable)" else ""
  s!"  {position} {severityMark finding.severity} {rule} {finding.message}{note}"

/-- The change that a finding asks for. -/
def changeText (change : Change) : String :=
  styled "36" s!"{quotedEnd change.old} → {quotedEnd change.new}"

/-- The lines for one finding. -/
def findingLines (file : Surveyed) (finding : Finding) : List String :=
  let source := (sourceLine? file finding).map fun line => detail "│" (String.ofList line.trim)
  let change := finding.change?.map fun change => detail "└─" (changeText change)
  headLine finding :: source.toList ++ change.toList

/-- The lines for one file, none for a file without findings. -/
def fileLines (file : Surveyed) : List String :=
  if file.findings.isEmpty then []
  else "" :: styled "4" file.path :: file.findings.flatMap (findingLines file)

/-- How much was looked at. -/
def scope (survey : Survey) : String :=
  s!"({survey.filesScanned} files scanned, {survey.rulesLoaded} rules loaded)"

/-- What is said when there are no findings. -/
def nothingFound (survey : Survey) : String := "No issues found " ++ scope survey

/-- A number of findings in a colour, in bold text that goes on behind it. -/
def tally (style thing : String) (n : Nat) : List String :=
  if n = 0 then [] else [styled style (counted n thing) ++ "\x1b[1m"]

/-- The last line. -/
def total (survey : Survey) : String :=
  let counts := tally "31" "error" (survey.count .error) ++
    tally "33" "warning" (survey.count .warning)
  styled "1" (", ".intercalate counts ++ " " ++ scope survey)

/-- The survey as lines for a terminal. -/
def prettyLines (survey : Survey) : List String :=
  if survey.findings.isEmpty then
    [styled "32" "✓" ++ " " ++ nothingFound survey]
  else
    survey.files.flatMap fileLines ++ ["", total survey]

end ScriptCheck.Output
