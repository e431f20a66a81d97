import ScriptCheck.Finding

/-!
# Applying remedies

The remedies of a list of findings are applied to the text the findings are about. An
earlier finding wins over a later one that lays claim to the same text. The winners are
applied from the end of the text to its start, so that no change moves a match that is
still to be changed. A match that is no longer there, or whose remedy declines, is
passed over and counted.
-/

namespace ScriptCheck

/-- The outcome of applying remedies. -/
structure Report where
  text : Text
  /-- Remedies that changed the text. -/
  applied : Nat
  /-- Findings passed over because an earlier one claimed their text. -/
  skippedOverlap : Nat
  /-- Findings whose match was not there, or whose remedy declined. -/
  skippedStale : Nat
  deriving DecidableEq, Repr

namespace Repair

/-- Whether two spans lay claim to the same text. An empty span is a place to insert at;
it conflicts only with a span that has it strictly inside. -/
def conflict (start stop start' stop' : Nat) : Bool :=
  if stop ≤ start then start' < start && start < stop'
  else if stop' ≤ start' then start < start' && start' < stop
  else start < stop' && start' < stop

/-- Whether the spans of two findings conflict. -/
def conflicts (finding other : Finding) : Bool :=
  conflict finding.offset finding.stop other.offset other.stop

/-- The findings that conflict with none accepted before them, in order. -/
def accept (taken : List Finding) : List Finding → List Finding
  | [] => []
  | finding :: rest =>
    if taken.any fun other => conflicts other finding then accept taken rest
    else finding :: accept (finding :: taken) rest

/-- Later matches come first; of two that start together, the one that stops later, so
that an insertion at the same place lands in front of it. -/
def comesFirst (finding other : Finding) : Bool :=
  other.offset < finding.offset || other.offset == finding.offset && other.stop ≤ finding.stop

/-- Apply the remedy of one finding to a text on which others may have been applied. -/
def applyOne (report : Report) (finding : Finding) : Report :=
  match report.text.cut? finding.offset finding.length with
  | some (left, found, right) =>
    if found = finding.matched then
      match finding.replacement? with
      | some new =>
        if new = finding.matched then report
        else { report with text := left ++ new ++ right, applied := report.applied + 1 }
      | none => { report with skippedStale := report.skippedStale + 1 }
    else
      { report with skippedStale := report.skippedStale + 1 }
  | none => { report with skippedStale := report.skippedStale + 1 }

/-- Apply every remedy that can be applied. -/
def run (text : Text) (findings : List Finding) : Report :=
  let fixable := findings.filter Finding.isFixable
  let accepted := accept [] fixable
  (accepted.mergeSort comesFirst).foldl applyOne
    { text, applied := 0, skippedOverlap := fixable.length - accepted.length, skippedStale := 0 }

end Repair

end ScriptCheck
