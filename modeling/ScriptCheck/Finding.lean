import ScriptCheck.Text.Basic

/-!
# Findings

A finding is one reported mistake: where it stands, what was matched there, and, when
the mistake can be mended, the remedy that gives the text to put in its place.
-/

namespace ScriptCheck

/-- How grave a finding is. -/
inductive Severity where
  | error
  | warning
  deriving DecidableEq, Repr

def Severity.label : Severity → String
  | error => "error"
  | warning => "warning"

/-- The text to put in place of a matched text, given that text and the pieces of its
groups, the whole match first. `none` leaves the match as it is. -/
abbrev Remedy := Text → List (Option Text) → Option Text

/-- A change of one text for another. -/
structure Change where
  old : Text
  new : Text
  deriving DecidableEq, Repr

/-- A reported mistake. -/
structure Finding where
  rule : String
  severity : Severity
  message : String
  line : Option Nat
  column : Option Nat
  /-- Byte offset of the match. -/
  offset : Nat
  /-- Number of bytes of the match. -/
  length : Nat
  matched : Text
  groups : List (Option Text)
  remedy : Option Remedy

namespace Finding

/-- The byte offset at which the match stops. -/
def stop (finding : Finding) : Nat := finding.offset + finding.length

/-- Whether the finding has a remedy, which may still decline. -/
def isFixable (finding : Finding) : Bool := finding.remedy.isSome

/-- What the remedy puts in place of the match. -/
def replacement? (finding : Finding) : Option Text := do
  let remedy ← finding.remedy
  remedy finding.matched finding.groups

/-- The change that the finding asks for, when its remedy changes anything. -/
def change? (finding : Finding) : Option Change :=
  (finding.replacement?.filter (· ≠ finding.matched)).map fun new => ⟨finding.matched, new⟩

end Finding

end ScriptCheck
