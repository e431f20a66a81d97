import ScriptCheck.Proofs.Decision
import ScriptCheck.Proofs.LineEdits

/-!
# Rules about the ends of lines

A rule whose matches run to the end of their lines and look at nothing else finds the same
matches on the same lines. Mended by such a rule alone, a text is changed line by line, and what
the rule reports afterwards stands on a line that was edited or was reported before. The rule has
nothing left to report when it spares the lines that it edited and judges the others as before.
-/

namespace ScriptCheck

open Repair

/-- What stands in front of a place of a line, as far as there is no newline in it, is part of the
line. -/
theorem Text.exists_front {above front left body : Text} (opened : ∀ c ∈ above.getLast?, c = '\n')
    (oneLine : ∀ c ∈ body, c ≠ '\n') (split : above ++ front = left ++ body) :
    ∃ front', left = above ++ front' ∧ front = front' ++ body := by
  rcases List.append_eq_append_iff.mp split with ⟨gap, rfl, rfl⟩ | ⟨gap, rfl, rfl⟩
  · exact ⟨gap, rfl, rfl⟩
  · rcases List.eq_nil_or_concat' gap with rfl | ⟨gap, c, rfl⟩
    · exact ⟨[], by simp, rfl⟩
    · obtain rfl := opened c (by simp)
      exact absurd rfl (oneLine '\n' (by simp))

/-- What stands behind a place of a line, as far as there is no newline in it, is part of the
line. -/
theorem Text.exists_back {back below body right : Text} (closed : ∀ c ∈ below.head?, c = '\n')
    (oneLine : ∀ c ∈ body, c ≠ '\n') (split : back ++ below = body ++ right) :
    ∃ back', back = body ++ back' ∧ right = back' ++ below := by
  rcases List.append_eq_append_iff.mp split with ⟨gap, rfl, rfl⟩ | ⟨gap, rfl, rfl⟩
  · cases gap with
    | nil => exact ⟨[], by simp, rfl⟩
    | cons c gap =>
      obtain rfl := closed c rfl
      exact absurd rfl (oneLine '\n' (by simp))
  · exact ⟨gap, rfl, rfl⟩

/-- A stretch without a newline that a newline or nothing follows is the end of a line. -/
theorem Text.exists_lineIn {text left body right : Text} (whole : text = left ++ body ++ right)
    (oneLine : ∀ c ∈ body, c ≠ '\n') (ends : ∀ c ∈ right.head?, c = '\n') :
    ∃ above front, left = above ++ front ∧ LineIn text above (front ++ body) right := by
  obtain ⟨mode, front, ⟨above, rfl, -, opened⟩, inLine⟩ := Line.Front.exists_front left
  refine ⟨above, front, rfl, ?_, opened, List.forall_mem_append.mpr ⟨inLine, oneLine⟩, ends⟩
  rw [whole, List.append_assoc above]

namespace Cursor

/-- Places at which two texts have the same line see the same line. -/
theorem alike_between {text text' above above' front back below below' : Text}
    (isLine : Text.LineIn text above (front ++ back) below)
    (isLine' : Text.LineIn text' above' (front ++ back) below') :
    (between (above ++ front) (back ++ below)).Alike
      (between (above' ++ front) (back ++ below')) := by
  have behind {text above below : Text} (isLine : Text.LineIn text above (front ++ back) below) :
      Text.firstLine (above ++ front).reverse = front.reverse :=
    List.reverse_eq_iff.mp (isLine.lastLine_eq rfl)
  have oneLine : ∀ c ∈ back, c ≠ '\n' := (List.forall_mem_append.mp isLine.oneLine).2
  constructor
  · exact (behind isLine).trans (behind isLine').symm
  · exact (Text.firstLine_eq oneLine isLine.closed).trans
      (Text.firstLine_eq oneLine isLine'.closed).symm

end Cursor

/-- A match is the end of a line of a text. -/
structure Match.EndsLine (found : Match) (text above front below : Text) : Prop where
  isLine : Text.LineIn text above (front ++ found.body) below
  before : found.whole.start.before = (above ++ front).reverse

namespace Pattern.FillsLine

variable {pattern : Pattern} {text text' above above' front below below' : Text} {found : Match}

/-- What a pattern that runs to the end of the line matches is the end of a line. -/
theorem exists_endsLine (fills : pattern.FillsLine) (member : found ∈ pattern.allMatches text) :
    ∃ above front below, found.EndsLine text above front below := by
  obtain ⟨left, right, captures, occurs⟩ := occurs_of_mem_allMatches member
  obtain ⟨oneLine, ends⟩ := fills _ _ _ _ occurs.fits
  obtain ⟨above, front, rfl, isLine⟩ := Text.exists_lineIn occurs.whole oneLine ends
  exact ⟨above, front, right, isLine, occurs.before⟩

/-- Where two texts have the same line, such a pattern has the same match on it. -/
theorem exists_match_of_line (fills : pattern.FillsLine) (stays : pattern.staysInLine = true)
    (member : found ∈ pattern.allMatches text) (ends : found.EndsLine text above front below)
    (isLine : Text.LineIn text' above' (front ++ found.body) below') :
    ∃ found' ∈ pattern.allMatches text', found'.EndsLine text' above' front below' ∧
      found'.body = found.body ∧
      ∀ number, (found'.group? number).map Piece.body = (found.group? number).map Piece.body := by
  obtain ⟨cursor, listed, matched⟩ := matchAt?_of_mem_matchesFrom member
  obtain ⟨rfl, -⟩ := occurs_of_matchAt? listed matched
  have place : found.whole.start = .between (above ++ front) (found.body ++ below) := by
    have within : text = found.whole.start.before.reverse ++ found.whole.start.after :=
      Cursor.Within.of_mem_all listed
    rw [ends.before, List.reverse_reverse, ends.isLine.whole] at within
    exact Cursor.eq_of_sides ends.before (by simpa [Cursor.between] using within.symm)
  rw [place] at matched
  obtain ⟨found', matched', body, groups⟩ :=
    matchAt?_of_alike stays (Cursor.alike_between ends.isLine isLine) matched
  have within : (Cursor.between (above' ++ front) (found.body ++ below')).Within text' := by
    rw [isLine.whole, ← List.append_assoc, List.append_assoc]
    exact Cursor.within_between _ _
  have start : found'.whole.start = _ := (occurs_of_matchAt? within.mem_all matched').1
  refine ⟨found', fills.mem_allMatches within matched' ?_, ⟨body ▸ isLine, ?_⟩, body, groups⟩
  · -- an earlier match on the line would be one in the other text too
    intro earlier gap spans present oneLine
    cases matchedEarlier : pattern.matchAt? earlier with
    | none => rfl
    | some other =>
      have split : above' ++ front = earlier.before.reverse ++ gap := by
        have behind : (above' ++ front).reverse = gap.reverse ++ earlier.before := spans.behind
        simpa using congrArg List.reverse behind
      obtain ⟨front', left, rfl⟩ := Text.exists_front isLine.opened oneLine split
      have same : earlier = .between (above' ++ front') (gap ++ found.body ++ below') := by
        refine Cursor.eq_of_sides (List.reverse_inj.mp ?_) (spans.ahead.trans ?_)
        · simpa [Cursor.between] using left
        · simp [Cursor.between]
      have lines := isLine
      have lines' := ends.isLine
      rw [List.append_assoc] at lines lines'
      rw [same] at matchedEarlier
      obtain ⟨other', matchedOther, -⟩ :=
        matchAt?_of_alike stays (Cursor.alike_between lines lines') matchedEarlier
      have reached : (Cursor.between (above ++ front') (gap ++ found.body ++ below)).Spans
          found.whole.start gap := by
        rw [place, ← List.append_assoc above, List.append_assoc gap]
        exact Cursor.spans_between _ _ _
      rw [fills.matchAt?_of_mem_allMatches member _ reached present oneLine] at matchedOther
      cases matchedOther
  · rw [start]
    rfl

end Pattern.FillsLine

namespace Checker

variable {checker : Checker} {rule : Rule}

/-- The findings of a rule stop further and further on. -/
theorem pairwise_stop_ruleFindings (text : Text) (rule : Rule) :
    (checker.ruleFindings text rule).Pairwise fun finding later => finding.stop < later.stop := by
  rw [ruleFindings]
  cases searched : rule.findings? checker.globals.knows text with
  | none => exact .nil
  | some findings =>
    obtain ⟨kept, accepted, rfl⟩ := Option.map_eq_some_iff.mp searched
    have sublist := (Rule.accepted?_spec accepted).1
    have search := rule.pattern.searched_allMatches text
    refine List.pairwise_map.mpr ((search.beyond.sublist sublist).imp_of_mem ?_)
    rintro found later member member' ⟨-, -, beyond⟩
    rwa [search.stop_finding rule (sublist.subset member),
      search.stop_finding rule (sublist.subset member')]

end Checker

/-- A match of an edited text stands on a line that was left alone, in the place of a match of the
text that it comes from. -/
structure Match.Kept (findings : List Finding) (found' found : Match)
    (text' text above' above front below' below : Text) : Prop where
  ends' : found'.EndsLine text' above' front below'
  ends : found.EndsLine text above front below
  body : found'.body = found.body
  groups : ∀ number, (found'.group? number).map Piece.body = (found.group? number).map Piece.body
  mode : Mode.code.after above' = Mode.code.after above
  follows : Text.FollowsByLine (EditsLine text findings) (above ++ (front ++ found.body))
    below below'

namespace Checker

variable [Engine] {checker : Checker} {rule : Rule} (one : checker.catalogue.rules = [rule])
  (fixable : rule.isFixable = true) (builtin : rule ∈ Catalogue.builtin.rules)
  (fills : rule.pattern.FillsLine) (text : Text)

include fixable builtin fills in
/-- Every finding of such a rule runs to the end of its line: its pattern does, and its remedy has a
replacement without newlines. -/
theorem runsToLineEnd_of_mem {finding : Finding}
    (member : finding ∈ checker.ruleFindings text rule) : RunsToLineEnd text finding := by
  obtain ⟨findings, searched, listed⟩ := mem_ruleFindings.mp member
  obtain ⟨found, left, right, captures, rfl, occurs, -⟩ :=
    Rule.exists_match_of_mem_findings? searched listed
  obtain ⟨left', right', new, edits⟩ := Rule.edits_of_mem_builtin builtin searched listed fixable
  have same : left' ++ (found.body ++ right') = left ++ (found.body ++ right) := by
    rw [← List.append_assoc, ← List.append_assoc, ← occurs.whole]
    exact edits.whole.symm
  have widths : left'.width = left.width := edits.offset.trans occurs.start_eq
  obtain ⟨-, ahead⟩ := Text.append_inj_of_width same widths
  refine ⟨left', right', new, edits, ?_⟩
  rw [List.append_cancel_left ahead]
  exact (fills _ _ _ _ occurs.fits).2

include one fixable builtin fills in
/-- A rule about line ends, alone, edits a text line by line. -/
theorem lineByLine_mend :
    Text.LineByLine (EditsLine text (checker.ruleFindings text rule)) [] text
      (checker.mend text).text := by
  rw [mend_of_one one fixable]
  exact lineByLine_substitute (fun _ => runsToLineEnd_of_mem fixable builtin fills text)
    (pairwise_stop_ruleFindings text rule)

include one fixable builtin fills in
/-- A rule about the ends of lines reports nothing in a text mended by it alone, when it reports
nothing on the lines it has edited, and on the others only what it would have reported before. -/
theorem findings?_mend (stays : rule.pattern.staysInLine = true) {holds : Text → Match → Bool}
    (reports : ∀ text, rule.findings? checker.globals.knows text =
      some (((rule.pattern.allMatches text).filter (holds text)).map (rule.finding text)))
    (keeps : Text.KeepsMode (EditsLine text (checker.ruleFindings text rule)))
    (spares : ∀ finding ∈ checker.ruleFindings text rule, ∀ new,
      finding.replacement? = some new → ∀ found above front front' below,
      found ∈ rule.pattern.allMatches (checker.mend text).text →
      found.EndsLine (checker.mend text).text above front below →
      front ++ found.body = front' ++ new → holds (checker.mend text).text found = false)
    (judges : ∀ found' found above' above front below' below,
      found' ∈ rule.pattern.allMatches (checker.mend text).text →
      Match.Kept (checker.ruleFindings text rule) found' found (checker.mend text).text text
        above' above front below' below →
      holds (checker.mend text).text found' = true → holds text found = true) :
    rule.findings? checker.globals.knows (checker.mend text).text = some [] := by
  rw [reports, Option.some_inj, List.map_eq_nil_iff, List.filter_eq_nil_iff]
  intro found' member' reported
  obtain ⟨above', front, below', ends'⟩ := fills.exists_endsLine member'
  obtain ⟨above, line, below, isLine, edits, mode, follows⟩ :=
    (lineByLine_mend one fixable builtin fills text).exists_line keeps ends'.isLine
  rw [List.nil_append] at edits follows
  rcases edits.edit with ⟨rfl, untouched⟩ | ⟨finding, listed, front', new, -, -, replaced, same⟩
  · obtain ⟨found, member, ends, body, groups⟩ :=
      fills.exists_match_of_line stays member' ends' isLine
    have kept : Match.Kept (checker.ruleFindings text rule) found' found (checker.mend text).text
        text above' above front below' below :=
      ⟨ends', ends, body.symm, fun number => (groups number).symm, mode, by
        rwa [body]⟩
    have reported' := judges _ _ _ _ _ _ _ member' kept reported
    have listed : rule.finding text found ∈ checker.ruleFindings text rule :=
      mem_ruleFindings.mpr ⟨_, reports text,
        List.mem_map_of_mem (List.mem_filter.mpr ⟨member, reported'⟩)⟩
    apply untouched _ listed
    have start : (rule.finding text found).offset = above.width + front.width := by
      show found.whole.start.offset = _
      rw [found.whole.start.placed, ends.before, Text.width_reverse, Text.width_append]
    rw [start, Text.width_append]
    omega
  · rw [spares finding listed new replaced found' above' front front' below' member' ends' same]
      at reported
    cases reported

end Checker

end ScriptCheck
