import ScriptCheck.Catalogue
import ScriptCheck.Output.Format

/-!
# The table of rules and the account of a mending
-/

namespace ScriptCheck.Output

/-- A rule as a row of the table. -/
def ruleRow (rule : Rule) : String :=
  let fixable := if rule.isFixable then "fixable" else "-"
  s!"{padded 26 rule.id} {padded 8 rule.severity.label} {padded 8 fixable} {rule.message}"

/-- The rules of a catalogue as a table. -/
def ruleTable (catalogue : Catalogue) : String := joinLines (catalogue.rules.map ruleRow)

/-- A number of fixes. -/
def fixes (n : Nat) : String := s!"{n} fix{pluralEs n}"

/-- What was done to one file. -/
def mendedLine (dryRun : Bool) (file : Mended) : String :=
  let verb := if dryRun then "would apply" else "applied"
  s!"  {verb} {fixes file.report.applied} in {file.path}"

/-- What was done in all. -/
def mendingTotal (mending : Mending) : String :=
  let mark := if mending.remaining = 0 then styled "32" "✓" else styled "33" "!"
  let verb := if mending.dryRun then "Would apply" else "Applied"
  let files := counted mending.filesChanged "file"
  let issues := counted mending.remaining "issue"
  s!"{mark} {verb} {fixes mending.applied} across {files}; {issues} remaining"

/-- What was done to each changed file, and in all. -/
def mendingLines (mending : Mending) : List String :=
  (mending.files.filter Mended.changed).map (mendedLine mending.dryRun) ++ [mendingTotal mending]

/-- The account of a mending. -/
def mendingSummary (mending : Mending) : String := joinLines (mendingLines mending)

end ScriptCheck.Output
