import ScriptCheck.Proofs.EditedLines
import ScriptCheck.Proofs.LineSearch

/-!
# Remedies at the ends of lines

The remedies of a rule whose matches run to the end of their lines edit each line at most once,
and the mended text is related to the text line by line. When in addition every line that is
edited leaves the scanner where it was, each line of the mended text is read as the line it
comes from.
-/

namespace ScriptCheck

namespace Text

variable {text above line below upper rest first : Text}

/-- What stands in front of a newline, or of nothing, is found again. -/
theorem append_inj_of_oneLine {front front' rest rest' : Text} (oneLine : ∀ c ∈ front, c ≠ '\n')
    (oneLine' : ∀ c ∈ front', c ≠ '\n') (ends : ∀ c ∈ rest.head?, c = '\n')
    (ends' : ∀ c ∈ rest'.head?, c = '\n') (same : front ++ rest = front' ++ rest') :
    front = front' ∧ rest = rest' := by
  have fronts : front = front' := by
    rw [← firstLine_eq oneLine ends, same, firstLine_eq oneLine' ends']
  subst fronts
  exact ⟨rfl, List.append_cancel_left same⟩

/-- The only line of a text without a newline is the text, with nothing above it and nothing
below. -/
theorem LineIn.of_oneLine (oneLine : ∀ c ∈ text, c ≠ '\n') (isLine : LineIn text above line below) :
    above = [] ∧ line = text ∧ below = [] := by
  have whole := isLine.whole
  obtain rfl : above = [] := by
    rcases List.eq_nil_or_concat' above with empty | ⟨front, c, rfl⟩
    · exact empty
    · obtain rfl := isLine.opened c (by simp)
      exact absurd rfl (oneLine '\n' (by simp [whole]))
  obtain rfl : below = [] := by
    cases below with
    | nil => rfl
    | cons c rest =>
      obtain rfl := isLine.closed c rfl
      exact absurd rfl (oneLine '\n' (by simp [whole]))
  exact ⟨rfl, by simp [whole], rfl⟩

/-- A line of a text is the first one, or one of those behind it. Inductions over lines use this to
tell the first line apart. -/
theorem LineIn.cases (oneLine : ∀ c ∈ first, c ≠ '\n')
    (isLine : LineIn (first ++ '\n' :: rest) above line below) :
    (above = [] ∧ line = first ∧ below = '\n' :: rest) ∨
      ∃ upper, above = first ++ '\n' :: upper ∧ LineIn rest upper line below := by
  have whole := isLine.whole
  rw [List.append_assoc] at whole
  rcases List.eq_nil_or_concat' above with rfl | ⟨front, c, rfl⟩
  · obtain ⟨rfl, rfl⟩ :=
      append_inj_of_oneLine oneLine isLine.oneLine (by simp) isLine.closed whole
    exact .inl ⟨rfl, rfl, rfl⟩
  · obtain rfl := isLine.opened c (by simp)
    right
    rcases List.append_eq_append_iff.mp whole with ⟨gap, split, behind⟩ | ⟨gap, split, -⟩
    · cases gap with
      | nil => exact absurd rfl (oneLine '\n' (by rw [List.append_nil] at split; simp [← split]))
      | cons d upper =>
        obtain ⟨rfl, whole'⟩ := List.cons.inj behind
        refine ⟨upper, split, ?_, ?_, isLine.oneLine, isLine.closed⟩
        · rw [List.append_assoc]
          exact whole'
        intro c last
        apply isLine.opened
        rw [split, List.getLast?_append, List.getLast?_cons, last]
        rfl
    · exact absurd rfl (oneLine '\n' (by simp [split]))

/-- A text is made into another one line by line. The relation `edit above line below new` is
about a line, what stands above and below it, and what it is made into; `above` is also what
stands in front of the lines that are left. -/
inductive LineByLine (edit : Text → Text → Text → Text → Prop) : Text → Text → Text → Prop where
  | last {above line new : Text} (oneLine : ∀ c ∈ line, c ≠ '\n') (oneLine' : ∀ c ∈ new, c ≠ '\n')
      (edited : edit above line [] new) : LineByLine edit above line new
  | further {above line new rest rest' : Text} (oneLine : ∀ c ∈ line, c ≠ '\n')
      (oneLine' : ∀ c ∈ new, c ≠ '\n') (edited : edit above line ('\n' :: rest) new)
      (behind : LineByLine edit (above ++ line ++ ['\n']) rest rest') :
      LineByLine edit above (line ++ '\n' :: rest) (new ++ '\n' :: rest')

/-- What follows a line is made into what follows the new one. -/
def FollowsByLine (edit : Text → Text → Text → Text → Prop) (above below below' : Text) : Prop :=
  below = [] ∧ below' = [] ∨ ∃ rest rest', below = '\n' :: rest ∧ below' = '\n' :: rest' ∧
    LineByLine edit (above ++ ['\n']) rest rest'

/-- A relation between lines that leaves the scanner where it was at the end of the line. -/
def KeepsMode (edit : Text → Text → Text → Text → Prop) : Prop :=
  ∀ above line below new, edit above line below new →
    ((Mode.code.after above).after new).step '\n' = ((Mode.code.after above).after line).step '\n'

/-- Each line of the new text comes from a line of the old one, which is read in the same mode. -/
theorem LineByLine.exists_line {edit : Text → Text → Text → Text → Prop} {rest' : Text}
    (lines : LineByLine edit above rest rest') (keeps : KeepsMode edit) {upper' line' below' : Text}
    (isLine : LineIn rest' upper' line' below') :
    ∃ upper line below, LineIn rest upper line below ∧ edit (above ++ upper) line below line' ∧
      (Mode.code.after above).after upper' = (Mode.code.after above).after upper ∧
      FollowsByLine edit (above ++ upper ++ line) below below' := by
  induction lines generalizing upper' with
  | @last above line new oneLine oneLine' edited =>
    obtain ⟨rfl, rfl, rfl⟩ := isLine.of_oneLine oneLine'
    exact ⟨[], line, [], ⟨by simp, by simp, oneLine, by simp⟩, by simpa using edited, rfl,
      .inl ⟨rfl, rfl⟩⟩
  | @further above line new rest rest' oneLine oneLine' edited behind ih =>
    rcases isLine.cases oneLine' with ⟨rfl, rfl, rfl⟩ | ⟨upper, rfl, isLine'⟩
    · exact ⟨[], line, '\n' :: rest, ⟨by simp, by simp, oneLine, by simp⟩, by simpa using edited,
        rfl, .inr ⟨rest, rest', rfl, rfl, by simpa using behind⟩⟩
    · obtain ⟨lower, line', below, found, edited', mode, follows⟩ := ih isLine'
      refine ⟨line ++ '\n' :: lower, line', below, found.below_line line, by simpa using edited',
        ?_, by simpa using follows⟩
      simp only [Mode.after_append, Mode.after_cons, Mode.after_nil] at mode ⊢
      rw [keeps _ _ _ _ edited]
      exact mode

end Text

namespace Repair

open Substitution

variable {text above line below : Text} {findings : List Finding}

/-- A line of a text is edited by the finding that starts on it and runs to its end; without such
a finding it stays as it is. -/
structure EditsLine (text : Text) (findings : List Finding) (above line below new : Text) :
    Prop where
  isLine : Text.LineIn text above line below
  edit : (new = line ∧ ∀ finding ∈ findings,
      ¬(above.width ≤ finding.offset ∧ finding.offset ≤ above.width + line.width)) ∨
    ∃ finding ∈ findings, ∃ front replaced, finding.offset = (above ++ front).width ∧
      line = front ++ finding.matched ∧ finding.replacement? = some replaced ∧
      new = front ++ replaced

/-- Where a finding that edits a line stands in the text. -/
theorem EditsLine.left_eq {new left right front : Text} {finding : Finding}
    (edits : EditsLine text findings above line below new)
    (whole : text = left ++ finding.matched ++ right) (place : left.width = finding.offset)
    (offset : finding.offset = (above ++ front).width) (split : line = front ++ finding.matched) :
    left = above ++ front := by
  have same : left ++ (finding.matched ++ right) =
      above ++ front ++ (finding.matched ++ below) := by
    rw [← List.append_assoc, ← whole, edits.isLine.whole, split]
    simp
  exact (Text.append_inj_of_width same (place.trans offset)).1

/-- A finding edits a text, and its match runs to the end of the line. -/
def RunsToLineEnd (text : Text) (finding : Finding) : Prop :=
  ∃ left right new, finding.Edits text left right new ∧ ∀ c ∈ right.head?, c = '\n'

/-- Such a finding is the end of the line that it starts on. -/
theorem RunsToLineEnd.exists_front {finding : Finding} (runs : RunsToLineEnd text finding)
    (isLine : Text.LineIn text above line below) (behind : above.width ≤ finding.offset)
    (inside : finding.offset ≤ above.width + line.width) :
    ∃ front, finding.offset = (above ++ front).width ∧ line = front ++ finding.matched := by
  obtain ⟨left, right, new, edits, ends⟩ := runs
  have cut : text = left ++ (finding.matched ++ right) := by rw [edits.whole, List.append_assoc]
  rw [← edits.offset] at behind inside
  obtain ⟨front, back, rfl, rfl⟩ := isLine.exists_front_of_width cut behind inside
  obtain ⟨matched, -⟩ := List.forall_mem_append.mp edits.oneLine
  have same : back ++ below = finding.matched ++ right := by
    have whole := isLine.whole.symm.trans cut
    simpa only [List.append_assoc, List.append_cancel_left_eq] using whole
  have oneLine : ∀ c ∈ back, c ≠ '\n' := fun c listed => isLine.oneLine c (by simp [listed])
  obtain ⟨rfl, -⟩ := Text.append_inj_of_oneLine oneLine matched isLine.closed ends same
  exact ⟨front, edits.offset.symm, rfl⟩

/-- Such a finding is on a line if it starts between its two ends. -/
theorem RunsToLineEnd.lineNumber_eq_iff {finding : Finding} (runs : RunsToLineEnd text finding)
    (isLine : Text.LineIn text above line below) :
    text.lineNumber finding.offset = above.count '\n' + 1 ↔
      above.width ≤ finding.offset ∧ finding.offset ≤ above.width + line.width := by
  obtain ⟨left, right, new, edits, -⟩ := runs
  rw [← edits.offset]
  exact isLine.lineNumber_eq_iff (by rw [edits.whole, List.append_assoc])

/-- What such findings substitute, and what for, lies on one line. -/
theorem mem_substitutions_of_runs (runs : ∀ finding ∈ findings, RunsToLineEnd text finding)
    {edit : Substitution} (member : edit ∈ substitutions text findings) : edit.OneLine text := by
  obtain ⟨finding, listed, asked⟩ := List.mem_filterMap.mp member
  obtain ⟨left, right, new, edits, -⟩ := runs finding listed
  rw [edits.substitution?_eq] at asked
  obtain rfl := Option.some.inj asked
  exact ⟨left, finding.matched, right, edits.whole, edits.offset, edits.length, edits.oneLine⟩

/-- The findings that start on the line behind a front of the text. -/
def startingBehind (text above : Text) (findings : List Finding) : List Finding :=
  findings.filter fun finding => text.lineNumber finding.offset == above.count '\n' + 1

/-- The findings on a line start between its two ends. -/
theorem mem_startingBehind (runs : ∀ finding ∈ findings, RunsToLineEnd text finding)
    (isLine : Text.LineIn text above line below) {finding : Finding} :
    finding ∈ startingBehind text above findings ↔ finding ∈ findings ∧
      above.width ≤ finding.offset ∧ finding.offset ≤ above.width + line.width := by
  rw [startingBehind, List.mem_filter, beq_iff_eq]
  exact and_congr_right fun member => (runs finding member).lineNumber_eq_iff isLine

/-- The substitutions on a line, counted from its start. -/
theorem onLine_substitutions (text above : Text) (findings : List Finding) :
    onLine text (substitutions text findings) (above.count '\n' + 1) =
      (substitutions text (startingBehind text above findings)).map (inLine text) := by
  rw [onLine]
  congr 1
  exact filter_substitutions text findings fun offset _ =>
    text.lineNumber offset == above.count '\n' + 1

/-- A list of elements that exclude each other has at most one. -/
theorem eq_nil_or_singleton_of_pairwise {α : Type} {values : List α}
    (none : values.Pairwise fun _ _ => False) : values = [] ∨ ∃ value, values = [value] := by
  cases values with
  | nil => exact .inl rfl
  | cons value values =>
    cases values with
    | nil => exact .inr ⟨value, rfl⟩
    | cons other values => exact ((List.pairwise_cons.mp none).1 other (.head _)).elim

/-- Findings that run to the end of one line stop in the same place, so that there is at most one
where no two do. -/
theorem startingBehind_eq_nil_or_singleton
    (runs : ∀ finding ∈ findings, RunsToLineEnd text finding)
    (ordered : findings.Pairwise fun finding later => finding.stop < later.stop)
    (isLine : Text.LineIn text above line below) :
    startingBehind text above findings = [] ∨
      ∃ finding, startingBehind text above findings = [finding] := by
  have stops {finding : Finding} (member : finding ∈ startingBehind text above findings) :
      finding.stop = above.width + line.width := by
    obtain ⟨listed, behind, inside⟩ := (mem_startingBehind runs isLine).mp member
    obtain ⟨front, offset, rfl⟩ := (runs finding listed).exists_front isLine behind inside
    obtain ⟨_, _, _, edits, -⟩ := runs finding listed
    rw [Finding.stop, offset, ← edits.length, Text.width_append, Text.width_append, Nat.add_assoc]
  apply eq_nil_or_singleton_of_pairwise
  refine (ordered.sublist List.filter_sublist).imp_of_mem ?_
  intro finding other member member' further
  rw [stops member, stops member'] at further
  exact Nat.lt_irrefl _ further

/-- Within its line an edit starts behind the front of the line. -/
theorem offset_inLine_of_front {edit : Substitution} {front back : Text}
    (isLine : Text.LineIn text above (front ++ back) below) (oneLine : edit.OneLine text)
    (number : text.lineNumber edit.offset = above.count '\n' + 1)
    (offset : edit.offset = (above ++ front).width) : (edit.inLine text).offset = front.width := by
  have shifted := (offset_inLine isLine oneLine).2 number
  rw [Text.width_append] at offset
  omega

/-- On one line the findings do what the one of them does that starts on it. -/
theorem editsLine_substituteFrom (runs : ∀ finding ∈ findings, RunsToLineEnd text finding)
    (ordered : findings.Pairwise fun finding later => finding.stop < later.stop)
    (isLine : Text.LineIn text above line below) :
    EditsLine text findings above line below
      (substituteFrom (substitutions text findings) above.width line) := by
  refine ⟨isLine, ?_⟩
  rw [substituteFrom_line isLine fun _ => mem_substitutions_of_runs runs, onLine_substitutions]
  rcases startingBehind_eq_nil_or_singleton runs ordered isLine with nothing | ⟨finding, one⟩
  · left
    rw [nothing]
    refine ⟨substitute_nil line, ?_⟩
    intro finding member on
    have listed := (mem_startingBehind runs isLine).mpr ⟨member, on⟩
    rw [nothing] at listed
    cases listed
  · right
    have member : finding ∈ startingBehind text above findings := by simp [one]
    obtain ⟨listed, behind, inside⟩ := (mem_startingBehind runs isLine).mp member
    obtain ⟨front, offset, rfl⟩ := (runs finding listed).exists_front isLine behind inside
    have number := ((runs finding listed).lineNumber_eq_iff isLine).mpr ⟨behind, inside⟩
    obtain ⟨left, right, new, edits, -⟩ := runs finding listed
    refine ⟨finding, listed, front, new, offset, rfl, edits.replaced, ?_⟩
    have asked : substitutions text [finding] = [⟨finding.offset, finding.length, new⟩] := by
      rw [substitutions, List.filterMap_cons, edits.substitution?_eq]
      rfl
    have oneLine := mem_substitutions_of_runs runs
      (List.mem_filterMap.mpr ⟨finding, listed, edits.substitution?_eq⟩)
    rw [one, asked, ← List.append_nil (front ++ finding.matched), List.map_cons,
      substitute_cons _ _ front finding.matched []
        (offset_inLine_of_front isLine oneLine number offset) edits.length.symm (by simp)]
    simp [substitute_nil, inLine]

/-- The findings of a text that run to the ends of their lines, at most one on each, edit it line
by line. -/
theorem lineByLine_substitute (runs : ∀ finding ∈ findings, RunsToLineEnd text finding)
    (ordered : findings.Pairwise fun finding later => finding.stop < later.stop) :
    Text.LineByLine (EditsLine text findings) [] text
      (substitute (substitutions text findings) text) := by
  have oneLine : ∀ edit ∈ substitutions text findings, edit.OneLine text :=
    fun _ => mem_substitutions_of_runs runs
  have unbroken : ∀ edit ∈ substitutions text findings, ∀ c ∈ edit.new, c ≠ '\n' := by
    intro edit member c listed
    obtain ⟨_, old, _, -, -, -, line⟩ := oneLine edit member
    exact line c (List.mem_append_right old listed)
  -- by induction on the lines that are left
  have from_line (above rest : Text) (whole : text = above ++ rest)
      (opened : ∀ c ∈ above.getLast?, c = '\n') :
      Text.LineByLine (EditsLine text findings) above rest
        (substituteFrom (substitutions text findings) above.width rest) := by
    induction rest using Text.lineInduction generalizing above with
    | last line line_oneLine =>
      have isLine : Text.LineIn text above line [] :=
        ⟨by rw [whole, List.append_nil], opened, line_oneLine, by simp⟩
      exact .last line_oneLine (oneLine_substituteFrom unbroken _ line_oneLine)
        (editsLine_substituteFrom runs ordered isLine)
    | further line rest line_oneLine ih =>
      have isLine : Text.LineIn text above line ('\n' :: rest) :=
        ⟨by rw [whole, List.append_assoc], opened, line_oneLine, by simp⟩
      have kept :
          (substitutions text findings).any (covers (above.width + line.width)) = false := by
        rw [List.any_eq_false, ← Text.width_append]
        intro edit member
        rw [(oneLine edit member).covers_newline isLine.whole]
        exact Bool.false_ne_true
      have start : Text.width (above ++ line ++ ['\n']) = above.width + line.width + 1 := by
        rw [Text.width_append, Text.width_append]
        rfl
      have behind := ih (above ++ line ++ ['\n'])
        (by rw [isLine.whole, List.append_assoc _ ['\n'] rest]; rfl) (by simp)
      rw [start] at behind
      rw [substituteFrom_newline _ above.width line rest kept]
      exact .further line_oneLine (oneLine_substituteFrom unbroken _ line_oneLine)
        (editsLine_substituteFrom runs ordered isLine) behind
  exact from_line [] text rfl (by simp)

end Repair

end ScriptCheck
