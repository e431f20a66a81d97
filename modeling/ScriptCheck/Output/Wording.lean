/-!
# Wording

Small pieces of text that the printed results share.
-/

namespace ScriptCheck.Output

/-- The ending of a plural in `s`. -/
def plural (n : Nat) : String := if n = 1 then "" else "s"

/-- The ending of a plural in `es`. -/
def pluralEs (n : Nat) : String := if n = 1 then "" else "es"

/-- A number of things. -/
def counted (n : Nat) (thing : String) : String := s!"{n} {thing}{plural n}"

/-- A text with blanks behind it up to a number of characters. -/
def padded (width : Nat) (text : String) : String :=
  text ++ String.ofList (List.replicate (width - text.length) ' ')

/-- A text between two terminal control sequences, the second of which ends the first. -/
def styled (style : String) (text : String) : String := s!"\x1b[{style}m{text}\x1b[0m"

end ScriptCheck.Output
