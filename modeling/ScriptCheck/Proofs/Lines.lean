import ScriptCheck.Text.Lines

/-!
# How lines are cut

A text and a stream are cut into lines by the same function, so what is said here about any
marks holds of both. Lines are cut off at the front: up to the first newline, without the
carriage return in front of it, and then the rest as if it stood alone. What stands behind the
last newline is a line if there is anything.
-/

namespace ScriptCheck

namespace LineMarks

variable {α : Type} [DecidableEq α] {marks : LineMarks α} {line : List α}

/-- A line without the carriage return at its end. -/
def chomp (marks : LineMarks α) (line : List α) : List α :=
  if line.getLast? = some marks.carriageReturn then line.dropLast else line

/-- At most a carriage return at the end is dropped. -/
theorem dropReturn_cases (marks : LineMarks α) (line : List α) :
    marks.dropReturn line = line ∨ line = marks.carriageReturn :: marks.dropReturn line := by
  cases line with
  | nil => exact .inl rfl
  | cons last rest =>
    rw [dropReturn]
    split
    · rename_i returned
      exact .inr (by rw [returned])
    · exact .inl rfl

/-- Lines are collected back to front, carriage return first. -/
theorem reverse_dropReturn (line : List α) :
    (marks.dropReturn line).reverse = marks.chomp line.reverse := by
  cases line with
  | nil => rfl
  | cons last rest =>
    rw [chomp, List.getLast?_reverse, List.dropLast_reverse, List.head?_cons, List.tail_cons,
      dropReturn]
    simp only [Option.some_inj]
    split <;> rfl

/-- What has no newline in it is collected for the current line. -/
theorem linesFrom_append (single : marks.newline ∉ line) (current rest : List α) :
    marks.linesFrom current (line ++ rest) = marks.linesFrom (line.reverse ++ current) rest := by
  induction line generalizing current with
  | nil => rfl
  | cons item line ih =>
    obtain ⟨differs, single⟩ := List.ne_and_not_mem_of_not_mem_cons single
    rw [List.cons_append, linesFrom, if_neg (Ne.symm differs), ih single,
      List.reverse_cons, List.append_assoc, List.singleton_append]

/-- A newline ends a line, and the rest is cut as if alone. -/
theorem lines_line (single : marks.newline ∉ line) (rest : List α) :
    marks.lines (line ++ marks.newline :: rest) = marks.chomp line :: marks.lines rest := by
  rw [lines, linesFrom_append single, linesFrom, if_pos rfl, reverse_dropReturn,
    List.append_nil, List.reverse_reverse, lines]

/-- The end ends a line too, if there is anything on it. -/
theorem lines_last (single : marks.newline ∉ line) (present : line ≠ []) :
    marks.lines line = [line] := by
  have all := linesFrom_append single [] []
  rw [List.append_nil, List.append_nil] at all
  rw [lines, all, linesFrom, List.reverse_reverse, if_neg (by simpa using present)]

end LineMarks

namespace Text

/-- A line without the carriage return at its end. -/
def chomp (line : Text) : Text := lineMarks.chomp line

/-- A newline ends a line of a text, without its carriage return. -/
theorem lines_line {line : Text} (oneLine : ∀ c ∈ line, c ≠ '\n') (rest : Text) :
    lines (line ++ '\n' :: rest) = chomp line :: lines rest :=
  LineMarks.lines_line (fun newline => oneLine _ newline rfl) rest

/-- The end of the text ends a line too, if there is anything on it. -/
theorem lines_last {line : Text} (oneLine : ∀ c ∈ line, c ≠ '\n') (present : line ≠ []) :
    lines line = [line] :=
  LineMarks.lines_last (fun newline => oneLine _ newline rfl) present

end Text

namespace Bytes

/-- A line without the carriage return at its end. -/
def chomp (line : Bytes) : Bytes := lineMarks.chomp line

/-- A newline ends a line of a stream, without its carriage return. -/
theorem lines_line {line : Bytes} (single : 10 ∉ line) (rest : Bytes) :
    lines (line ++ 10 :: rest) = chomp line :: lines rest :=
  LineMarks.lines_line single rest

/-- The end of the stream ends a line too, if anything is on it. -/
theorem lines_last {line : Bytes} (single : 10 ∉ line) (present : line ≠ []) :
    lines line = [line] :=
  LineMarks.lines_last single present

end Bytes

end ScriptCheck
