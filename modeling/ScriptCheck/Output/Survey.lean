import ScriptCheck.Repair

/-!
# Results over several files

A survey is what checking a list of sources found; a mending is what applying remedies
to them did.
-/

namespace ScriptCheck

/-- A source that was checked. -/
structure Surveyed where
  path : String
  source : Text
  findings : List Finding

/-- The result of checking several sources. -/
structure Survey where
  files : List Surveyed
  filesScanned : Nat
  rulesLoaded : Nat

namespace Survey

/-- The findings of all files, in order. -/
def findings (survey : Survey) : List Finding := survey.files.flatMap Surveyed.findings

/-- The number of findings of one severity. -/
def count (survey : Survey) (severity : Severity) : Nat :=
  survey.findings.countP fun finding => finding.severity = severity

def hasErrors (survey : Survey) : Bool := 0 < survey.count .error

end Survey

/-- A source to which remedies were applied. -/
structure Mended where
  path : String
  /-- The source came from standard input and is not written back. -/
  fromInput : Bool
  report : Report
  /-- What is still found in the mended text. -/
  remaining : List Finding

def Mended.changed (file : Mended) : Bool := 0 < file.report.applied

/-- The result of applying remedies to several sources. -/
structure Mending where
  files : List Mended
  /-- Nothing was written. -/
  dryRun : Bool

namespace Mending

def applied (mending : Mending) : Nat :=
  mending.files.foldl (fun total file => total + file.report.applied) 0

def filesChanged (mending : Mending) : Nat := mending.files.countP Mended.changed

def remaining (mending : Mending) : Nat :=
  mending.files.foldl (fun total file => total + file.remaining.length) 0

end Mending

end ScriptCheck
