import ScriptCheck.Json.Printer
import ScriptCheck.Output.Survey

/-!
# Results as JSON
-/

namespace ScriptCheck.Output

def changeJson (change : Change) : Json :=
  .record [("old", .string change.old), ("new", .string change.new)]

def findingJson (finding : Finding) : Json :=
  .record
    [("rule_id", .ofString finding.rule),
     ("severity", .ofString finding.severity.label),
     ("line", .orNull (finding.line.map .ofNat)),
     ("column", .orNull (finding.column.map .ofNat)),
     ("offset", .ofNat finding.offset),
     ("length", .ofNat finding.length),
     ("matched", .string finding.matched),
     ("message", .ofString finding.message),
     ("fixable", .bool finding.isFixable),
     ("fix", .orNull (finding.change?.map changeJson))]

def findingsJson (findings : List Finding) : Json := .array (findings.map findingJson)

/-- The members that count findings. -/
def countMembers (findings : List Finding) : List (String × Json) :=
  [("total", .ofNat findings.length),
   ("errors", .ofNat (findings.countP fun finding => finding.severity = .error)),
   ("warnings", .ofNat (findings.countP fun finding => finding.severity = .warning)),
   ("fixable", .ofNat (findings.countP Finding.isFixable))]

def surveyJson (survey : Survey) : Json :=
  .record
    [("files", .array (survey.files.map fun file =>
        .record [("file", .ofString file.path), ("findings", findingsJson file.findings)])),
     ("summary", .record (countMembers survey.findings ++
        [("files_scanned", .ofNat survey.filesScanned),
         ("rules_loaded", .ofNat survey.rulesLoaded)]))]

end ScriptCheck.Output
