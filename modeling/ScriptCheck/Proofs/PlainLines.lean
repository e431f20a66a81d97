import ScriptCheck.Checker
import ScriptCheck.Output.Format
import ScriptCheck.Proofs.EditedLines

/-!
# Findings on lines

Two formats are read by other programs, line by line. For every finding, file by file, each
of them writes an entry and a newline. The path of the file, the id of the rule and the
message go into the entry as they are, and everything else in it is on one line. So an
entry takes a line more than these three have newlines, and the lines of the output are
those of the entries, in order.

There is one line for each finding, and each line is an entry, exactly when no path, id or
message has a newline. Nothing sees to that. The paths are those of files, and the message
of a rejected text is whatever the parser says.
-/

namespace ScriptCheck

namespace Text

/-- A text has at least one line. -/
theorem one_le_length_splitOn (text : Text) : 1 ≤ (text.splitOn '\n').length := by
  rw [length_splitOn]
  exact Nat.le_add_left _ _

/-- Texts, each ended by a newline, have the lines of each. -/
theorem splitOn_flatMap_newline (texts : List Text) :
    (texts.flatMap (· ++ ['\n'])).splitOn '\n' = texts.flatMap (List.splitOn '\n') ++ [[]] := by
  induction texts with
  | nil => rfl
  | cons text texts ih =>
    have split : (text ++ '\n' :: texts.flatMap (· ++ ['\n'])).splitOn '\n' =
        text.splitOn '\n' ++ (texts.flatMap (· ++ ['\n'])).splitOn '\n' :=
      List.splitOnP_append_cons _ _ (by simp)
    rw [List.flatMap_cons, List.append_assoc, List.singleton_append, split, ih,
      List.flatMap_cons, List.append_assoc]

/-- As many lines as texts means that each text is a line, since each has at least one. -/
theorem length_flatMap_splitOn_eq_iff (texts : List Text) :
    (texts.flatMap (List.splitOn '\n')).length = texts.length ↔ ∀ text ∈ texts, '\n' ∉ text := by
  have atLeast (texts : List Text) : texts.length ≤ (texts.flatMap (List.splitOn '\n')).length := by
    induction texts with
    | nil => exact Nat.le_refl _
    | cons text texts ih =>
      have first := text.one_le_length_splitOn
      rw [List.flatMap_cons, List.length_append, List.length_cons]
      omega
  induction texts with
  | nil => simp
  | cons text texts ih =>
    have others := atLeast texts
    rw [List.flatMap_cons, List.length_append, List.length_cons, length_splitOn,
      List.forall_mem_cons, ← List.count_eq_zero]
    constructor
    · intro total
      exact ⟨by omega, ih.mp (by omega)⟩
    · rintro ⟨single, single'⟩
      have total := ih.mpr single'
      omega

/-- Texts are their own lines exactly if they have no newline. -/
theorem flatMap_splitOn_eq_iff (texts : List Text) :
    texts.flatMap (List.splitOn '\n') = texts ↔ ∀ text ∈ texts, '\n' ∉ text := by
  constructor
  · intro same
    exact (length_flatMap_splitOn_eq_iff texts).mp (congrArg List.length same)
  · intro single
    rw [List.flatMap_congr fun text listed => List.splitOn_eq_singleton (single text listed)]
    simp

end Text

/-- A finding with the path of the file it is in. -/
structure Reported where
  path : String
  finding : Finding

/-- What the file, the rule and the parser say is without a newline. -/
structure Reported.Unbroken (reported : Reported) : Prop where
  path : '\n' ∉ reported.path.toList
  rule : '\n' ∉ reported.finding.rule.toList
  message : '\n' ∉ reported.finding.message.toList

/-- The findings of all files, in order. -/
def Survey.reported (survey : Survey) : List Reported :=
  survey.files.flatMap fun file => file.findings.map (Reported.mk file.path)

namespace Output

/-- The formats that other programs read. -/
inductive Plain where
  | compact
  | github

namespace Plain

def format : Plain → Format
  | compact => .compact
  | github => .github

/-- A property of a workflow command, left out when its value is not known. -/
def property (name : String) : Option Nat → List Text
  | some value => [",".toList, name.toList, "=".toList, Nat.toDigits 10 value]
  | none => []

/-- What is said of a finding, piece by piece. -/
def pieces (path : String) (finding : Finding) : Plain → List Text
  | compact =>
    [path.toList, ":".toList, Nat.toDigits 10 (finding.line.getD 1), ":".toList,
     Nat.toDigits 10 (finding.column.getD 1), ": ".toList, finding.severity.label.toList,
     "[".toList, finding.rule.toList, "] ".toList, finding.message.toList]
  | github =>
    ["::".toList, finding.severity.label.toList, " file=".toList, path.toList] ++
      property "line" finding.line ++ property "col" finding.column ++
      [",title=".toList, finding.rule.toList, "::".toList, finding.message.toList]

/-- The entry of a finding. -/
def entry (plain : Plain) (reported : Reported) : Text :=
  (plain.pieces reported.path reported.finding).flatten

/-! ### What is written -/

/-- A string is shown as itself when it is put into another. -/
theorem toString_string (s : String) : toString s = s := rfl

/-- The compact line is made of what is said of a finding. -/
theorem toList_compactLine (path : String) (finding : Finding) :
    (compactLine path finding).toList = compact.entry ⟨path, finding⟩ := by
  simp [compactLine, entry, pieces, toString_string]

/-- The workflow line is made of what is said of a finding. -/
theorem toList_workflowLine (path : String) (finding : Finding) :
    (workflowLine path finding).toList = github.entry ⟨path, finding⟩ := by
  cases line : finding.line <;> cases column : finding.column <;>
    simp [workflowLine, entry, pieces, property, line, column, toString_string]

/-- The output is the entries, each with its newline. -/
theorem toList_out (plain : Plain) (survey : Survey) :
    (plain.format.render survey).out.toList =
      (survey.reported.map plain.entry).flatMap (· ++ ['\n']) := by
  have joined {line : String → Finding → String}
      (writes : ∀ path finding, (line path finding).toList = plain.entry ⟨path, finding⟩) :
      (joinLines (linesBy line survey)).toList =
        (survey.reported.map plain.entry).flatMap (· ++ ['\n']) := by
    simp [joinLines, linesBy, Survey.reported, String.toList_join, List.flatMap_map,
      List.flatMap_assoc, List.map_flatMap, writes]
  cases plain with
  | compact => exact joined toList_compactLine
  | github => exact joined toList_workflowLine

/-- A number is written on one line. -/
theorem newline_not_mem_toDigits (n : Nat) : '\n' ∉ Nat.toDigits 10 n := by
  intro listed
  cases Nat.isDigit_of_mem_toDigits (by decide) (by decide) listed

/-- The name of a severity is on one line, for each of them. -/
theorem newline_not_mem_label (severity : Severity) : '\n' ∉ severity.label.toList := by
  cases severity <;> decide

/-- A property is written on one line if its name is. -/
theorem newline_not_mem_property {name : String} (single : '\n' ∉ name.toList)
    (value : Option Nat) : ∀ piece ∈ property name value, '\n' ∉ piece := by
  cases value <;> simp [property, single, newline_not_mem_toDigits]

/-- An entry is on one line exactly when the path, the id of the rule and the message are. -/
theorem newline_not_mem_entry_iff (plain : Plain) (reported : Reported) :
    '\n' ∉ plain.entry reported ↔ reported.Unbroken := by
  obtain ⟨path, finding⟩ := reported
  have parts : '\n' ∉ plain.entry ⟨path, finding⟩ ↔
      ∀ piece ∈ plain.pieces path finding, '\n' ∉ piece := by
    simp [entry]
  have unbroken : (⟨path, finding⟩ : Reported).Unbroken ↔
      '\n' ∉ path.toList ∧ '\n' ∉ finding.rule.toList ∧ '\n' ∉ finding.message.toList :=
    ⟨fun ⟨path, rule, message⟩ => ⟨path, rule, message⟩,
      fun ⟨path, rule, message⟩ => ⟨path, rule, message⟩⟩
  rw [parts, unbroken]
  cases plain with
  | compact => simp [pieces, newline_not_mem_toDigits, newline_not_mem_label]
  | github =>
    have line := newline_not_mem_property (show '\n' ∉ "line".toList by decide) finding.line
    have column := newline_not_mem_property (show '\n' ∉ "col".toList by decide) finding.column
    simp only [pieces, List.forall_mem_append, and_iff_left line, and_iff_left column]
    simp [newline_not_mem_label]

end Plain

/-- For every survey and either format: the lines written are the lines of the entries, one
behind the other. They are as many as the findings exactly when no path, id or message has a
newline, and exactly then the line in each place is the entry of the finding in that place. -/
theorem plain_lines_by_entry (plain : Plain) (survey : Survey) :
    ∃ lines : List Text,
      (plain.format.render survey).out.toList.splitOn '\n' = lines ++ [[]] ∧
      lines = survey.reported.flatMap (fun reported => (plain.entry reported).splitOn '\n') ∧
      (lines.length = survey.reported.length ↔
        ∀ reported ∈ survey.reported, reported.Unbroken) ∧
      (lines = survey.reported.map plain.entry ↔
        ∀ reported ∈ survey.reported, reported.Unbroken) := by
  have lines : (plain.format.render survey).out.toList.splitOn '\n' =
      (survey.reported.map plain.entry).flatMap (List.splitOn '\n') ++ [[]] := by
    rw [plain.toList_out, Text.splitOn_flatMap_newline]
  have unbroken : (∀ text ∈ survey.reported.map plain.entry, '\n' ∉ text) ↔
      ∀ reported ∈ survey.reported, reported.Unbroken := by
    rw [List.forall_mem_map]
    exact forall₂_congr fun reported _ => plain.newline_not_mem_entry_iff reported
  refine ⟨_, lines, List.flatMap_map _ _ _, ?_, ?_⟩
  · rw [← unbroken, ← Text.length_flatMap_splitOn_eq_iff, List.length_map]
  · rw [← unbroken, ← Text.flatMap_splitOn_eq_iff]

/-- A parser that says two lines about a text makes one finding take two lines, in both formats. -/
theorem plain_lines_broken_by_message :
    let _ : Engine := .unlimited
    let said : Diagnostic := ⟨"Unexpected token\nexpected an operator", none⟩
    let checker : Checker := ⟨.builtin, fun _ => .rejected said, .builtin⟩
    let source : Text := "x = 1;\n".toList
    let survey : Survey := ⟨[⟨"a.js", source, checker.inspect source⟩], 1, 13⟩
    survey.reported.length = 1 ∧
      (Format.github.render survey).out =
        "::error file=a.js,title=syntax-error::Unexpected token\nexpected an operator\n" ∧
      (Format.compact.render survey).out =
        "a.js:1:1: error[syntax-error] Unexpected token\nexpected an operator\n" := by
  decide +kernel

end Output

end ScriptCheck
