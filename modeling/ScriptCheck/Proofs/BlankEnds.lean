import ScriptCheck.Proofs.ElseBlocks
import ScriptCheck.Proofs.EndedStatements
import ScriptCheck.Proofs.Respelling
import ScriptCheck.Proofs.Settling

/-!
# What a missing semicolon claims

A semicolon that is missing is reported with the blanks at the end of its line. The
other rules with a remedy are of two kinds. Some match to the end of the line, with the
blanks; on a line that ends in blanks they claim the same text as the semicolon, and as
the semicolon comes first, they are passed over. The others end their matches in a
character that is not blank, and never meet the blanks.

With no blanks at the end of the line the semicolon claims an empty span, at the end of
all other matches, and nothing is passed over for it.
-/

namespace ScriptCheck

open Pattern Phrase Repair Line

/-! ### The two kinds of rules -/

/-- The rules besides the one about semicolons whose matches run to the end of the line. -/
def lineRules : List String :=
  ["if-without-block", "else-without-block", "unclosed-console-call"]

/-- A pattern whose matches end in a character that is not blank. -/
def Pattern.EndsSolid (pattern : Pattern) : Prop :=
  ∀ before body after captures, pattern.Fits before body after captures →
    ∃ c, body.getLast? = some c ∧ among " \t\r" c = false

/-- The rule about bare conditions matches to the end of a line. -/
theorem Block.fillsLine_ifPattern : Block.ifPattern.FillsLine := by
  intro before body after captures fits
  obtain ⟨gap, condition, gap', statement, trailing, rfl, blank, blank', oneLine, isBody, -⟩ :=
    Block.form_of_fits_ifPattern fits
  refine ⟨?_, isBody.ending⟩
  simp only [List.forall_mem_append]
  exact ⟨⟨⟨⟨by simp, oneLine_of_among blank, by simp⟩, oneLine⟩, by simp,
    oneLine_of_among blank'⟩, isBody.oneLine,
    fun c listed => (Line.of_blank (isBody.blank c listed)).2.2⟩

/-- The rule about open calls matches to the end of a line. -/
theorem Delimiter.fillsLine_consoleCall : Delimiter.consoleCall.FillsLine := by
  intro before body after captures fits
  obtain ⟨head, rest, rfl, -, isHead, line, ends⟩ := Delimiter.form_of_fits_consoleCall fits
  refine ⟨?_, ends⟩
  simp only [List.forall_mem_append, List.forall_mem_cons]
  exact ⟨fun c listed => (Mode.isPlain_iff.mp (isPlain_of_isCallHead (isHead c listed)).1).2.2.2.1,
    by decide, line⟩

/-- A declaration of a constant ends in an equals sign. -/
theorem Reassignment.endsSolid_declaration : Reassignment.declaration.EndsSolid := by
  intro before body after captures fits
  obtain ⟨-, -, -, -, -, last, -⟩ := Reassignment.form_of_fits_declaration fits
  exact ⟨'=', last, by decide⟩

/-- A misspelt name ends in a letter. -/
theorem Spelling.endsSolid_rule {entry : Spelling.Entry} (known : entry ∈ Spelling.vocabulary) :
    entry.rule.pattern.EndsSolid := by
  intro before body after captures fits
  obtain ⟨present, letters, -⟩ := Spelling.of_lists known (Spelling.fits_rule_iff.mp fits).1
  obtain ⟨front, c, rfl⟩ := (List.eq_nil_or_concat body).resolve_left present
  refine ⟨c, by simp, ?_⟩
  have letter : c.isAlpha = true := letters c (by simp)
  cases blank : among " \t\r" c with
  | false => rfl
  | true =>
    have notLetter : c.isAlpha = false := of_among Char.isAlpha blank (by decide)
    rw [notLetter] at letter
    cases letter

/-- The rules with a remedy fall into two kinds, the one about semicolons aside: those that run to
the end of the line, and those whose matches end in something solid. The rules are gone through one
by one. -/
theorem Rule.fillsLine_or_endsSolid [Engine] {rule : Rule}
    (builtin : rule ∈ Catalogue.builtin.rules) (fixable : rule.isFixable = true)
    (other : rule.id ≠ Semicolon.missing.id) :
    (rule.id ∈ lineRules ∧ rule.pattern.FillsLine) ∨
      (rule.id ∉ lineRules ∧ rule.pattern.EndsSolid) := by
  simp only [Catalogue.builtin, List.mem_cons, List.not_mem_nil, or_false] at builtin
  rcases builtin with rfl | rfl | rfl | rfl | rfl | rfl | rfl | rfl | rfl | rfl | rfl | rfl | rfl
  · exact absurd rfl other
  · exact .inl ⟨by decide, Block.fillsLine_ifPattern⟩
  · exact .inl ⟨by decide, Block.fillsLine_elsePattern⟩
  · have id : Reassignment.constant.id = "const-reassignment" := rfl
    exact .inr ⟨by rw [id]; decide, Reassignment.endsSolid_declaration⟩
  · exact .inr ⟨by decide, Spelling.endsSolid_rule (.head _)⟩
  · exact .inr ⟨by decide, Spelling.endsSolid_rule (.tail _ (.head _))⟩
  · exact .inr ⟨by decide, Spelling.endsSolid_rule (.tail _ (.tail _ (.head _)))⟩
  · exact .inl ⟨by decide, Delimiter.fillsLine_consoleCall⟩
  all_goals cases fixable

/-! ### Two findings and a line -/

/-- No two different findings of such a list conflict. -/
theorem Repair.conflicts_of_pairwise {findings : List Finding} {finding other : Finding}
    (apart : findings.Pairwise fun finding later => conflicts finding later = false)
    (member : finding ∈ findings) (member' : other ∈ findings) (differs : other ≠ finding) :
    conflicts finding other = false := by
  have symmetric : Std.Symm fun finding later : Finding => conflicts finding later = false :=
    ⟨fun finding later free => (conflicts_comm later finding).trans free⟩
  exact apart.forall member member' differs.symm

/-- Only a missing semicolon can be reported with nothing matched. -/
theorem Finding.Edits.length_pos {finding : Finding} {text left right new : Text}
    (edits : finding.Edits text left right new) (other : finding.rule ≠ Semicolon.missing.id) :
    0 < finding.length := by
  rcases edits.edit with ⟨same, -⟩ | rewrite
  · exact absurd same other
  · obtain ⟨c, first, -⟩ := rewrite.letter
    obtain ⟨rest, form⟩ := List.head?_eq_some_iff.mp first
    rw [← edits.length, form, Text.width_cons]
    exact Nat.add_pos_left c.utf8Size_pos _

/-- A finding whose match is the end of a line. -/
structure Finding.EndsLine (finding : Finding) (text above front below : Text) : Prop where
  isLine : Text.LineIn text above (front ++ finding.matched) below
  offset : (above ++ front).width = finding.offset
  length : finding.matched.width = finding.length

/-- A finding that runs to its line's end ends a line of the text. -/
theorem Repair.RunsToLineEnd.exists_endsLine {text : Text} {finding : Finding}
    (runs : RunsToLineEnd text finding) :
    ∃ above front below, finding.EndsLine text above front below := by
  obtain ⟨left, right, new, edits, ends⟩ := runs
  obtain ⟨oneLine, -⟩ := List.forall_mem_append.mp edits.oneLine
  obtain ⟨above, front, rfl, isLine⟩ := Text.exists_lineIn edits.whole oneLine ends
  exact ⟨above, front, right, isLine, edits.offset, edits.length⟩

/-- A finding starts between the start and the end of a line. -/
def Finding.StartsOn (finding : Finding) (above line : Text) : Prop :=
  above.width ≤ finding.offset ∧ finding.offset ≤ above.width + line.width

namespace Finding.EndsLine

variable {finding other : Finding} {text above front below left right new : Text}
  (ends : finding.EndsLine text above front below)

include ends

/-- A finding that ends a line stops where the line does. -/
theorem stop_eq : finding.stop = above.width + Text.width (front ++ finding.matched) := by
  rw [Finding.stop, ← ends.offset, ← ends.length, Text.width_append, Text.width_append,
    Nat.add_assoc]

/-- A finding that ends a line starts on that line. -/
theorem startsOn : finding.StartsOn above (front ++ finding.matched) := by
  rw [Finding.StartsOn, ← ends.offset, Text.width_append, Text.width_append]
  omega

/-- A finding that claims text of the line starts on the line. -/
theorem startsOn_of_conflicts (edits : other.Edits text left right new)
    (conflict : conflicts finding other = true) :
    other.StartsOn above (front ++ finding.matched) := by
  rw [conflicts_iff, ends.stop_eq] at conflict
  refine ⟨?_, Nat.le_of_lt conflict.2⟩
  rcases Nat.le_total other.offset finding.offset with earlier | later
  · have oneLine : Substitution.OneLine text ⟨other.offset, other.length, new⟩ :=
      ⟨left, other.matched, right, edits.whole, edits.offset, edits.length, edits.oneLine⟩
    have covered : Substitution.covers (above.width + front.width)
        ⟨other.offset, other.length, new⟩ = true := by
      rw [← Text.width_append, ends.offset]
      exact Substitution.covers_iff.mpr ⟨earlier, conflict.1⟩
    exact oneLine.le_offset ends.isLine covered
  · exact Nat.le_trans ends.startsOn.1 later

/-- The findings of a line are those that start on it. -/
theorem line_eq_iff (line : finding.line = some (text.lineNumber finding.offset))
    (line' : other.line = some (text.lineNumber other.offset))
    (edits : other.Edits text left right new) :
    other.line = finding.line ↔ other.StartsOn above (front ++ finding.matched) := by
  have whole : text = above ++ front ++ (finding.matched ++ below) := by
    rw [ends.isLine.whole]
    simp only [List.append_assoc]
  have whole' : text = left ++ (other.matched ++ right) := by rw [edits.whole, List.append_assoc]
  have number : text.lineNumber finding.offset = above.count '\n' + 1 := by
    rw [← ends.offset, ends.isLine.lineNumber_eq_iff whole, ends.offset]
    exact ends.startsOn
  rw [line, line', Option.some_inj, number, ← edits.offset, ends.isLine.lineNumber_eq_iff whole',
    edits.offset]
  rfl

/-- On the same line, a match to the end of the line stops where the line does. -/
theorem stop_eq_of_runs (runs : RunsToLineEnd text other)
    (starts : other.StartsOn above (front ++ finding.matched)) : other.stop = finding.stop := by
  obtain ⟨front', offset, split⟩ := runs.exists_front ends.isLine starts.1 starts.2
  obtain ⟨left, right, new, edits, -⟩ := runs
  rw [ends.stop_eq, split, Finding.stop, offset, ← edits.length, Text.width_append,
    Text.width_append, Nat.add_assoc]

/-- On the same line, a match that ends in a character that is not blank stops in front of the
blanks. -/
theorem stop_le_of_solid (blank : ∀ c ∈ finding.matched, among " \t\r" c = true)
    (edits : other.Edits text left right new)
    (solid : ∃ c, other.matched.getLast? = some c ∧ among " \t\r" c = false)
    (starts : other.StartsOn above (front ++ finding.matched)) :
    other.stop ≤ finding.offset := by
  obtain ⟨c, last, notBlank⟩ := solid
  have whole : text = left ++ (other.matched ++ right) := by rw [edits.whole, List.append_assoc]
  rw [Finding.StartsOn, ← edits.offset] at starts
  obtain ⟨front', back, rfl, split⟩ :=
    ends.isLine.exists_front_of_width whole starts.1 starts.2
  have same : back ++ below = other.matched ++ right := by
    rw [ends.isLine.whole, split] at whole
    simpa only [List.append_assoc, List.append_cancel_left_eq] using whole
  obtain ⟨oneLine, -⟩ := List.forall_mem_append.mp edits.oneLine
  obtain ⟨rest, rfl, -⟩ := Text.exists_back ends.isLine.closed oneLine same
  rw [Finding.stop, ← edits.offset, ← edits.length, ← ends.offset, Text.width_append,
    Text.width_append]
  rw [← List.append_assoc] at split
  rcases List.append_eq_append_iff.mp split with ⟨gap, longer, blanks⟩ | ⟨gap, shorter, -⟩
  · rcases List.eq_nil_or_concat' gap with rfl | ⟨gap, d, rfl⟩
    · rw [List.append_nil] at longer
      rw [← longer, Text.width_append, Nat.add_assoc]
    · -- the last character of the match would be one of the blanks
      have lasts : (front' ++ other.matched).getLast? = some d := by
        rw [longer, ← List.append_assoc, List.getLast?_concat]
      rw [List.getLast?_append, last] at lasts
      obtain rfl := Option.some.inj lasts
      rw [blank c (by simp [blanks])] at notBlank
      cases notBlank
  · rw [shorter, Text.width_append, Text.width_append]
    omega

/-- A finding with blanks at the end of a line conflicts with what runs to the end of that line. -/
theorem conflicts_iff_of_runs (line : finding.line = some (text.lineNumber finding.offset))
    (line' : other.line = some (text.lineNumber other.offset)) (runs : RunsToLineEnd text other)
    (present : 0 < other.length) :
    conflicts finding other = true ↔ 0 < finding.length ∧ other.line = finding.line := by
  obtain ⟨left, right, new, edits, -⟩ := id runs
  rw [ends.line_eq_iff line line' edits]
  constructor
  · intro conflict
    have starts := ends.startsOn_of_conflicts edits conflict
    rw [conflicts_iff, ends.stop_eq_of_runs runs starts, Finding.stop] at conflict
    exact ⟨by omega, starts⟩
  · rintro ⟨wide, starts⟩
    have stop := ends.stop_eq_of_runs runs starts
    rw [conflicts_iff, stop]
    rw [Finding.stop, Finding.stop] at *
    omega

/-- It conflicts with nothing that ends in a solid character. -/
theorem conflicts_of_solid (blank : ∀ c ∈ finding.matched, among " \t\r" c = true)
    (edits : other.Edits text left right new)
    (solid : ∃ c, other.matched.getLast? = some c ∧ among " \t\r" c = false) :
    conflicts finding other = false := by
  rw [Bool.eq_false_iff]
  intro conflict
  have stops := ends.stop_le_of_solid blank edits solid (ends.startsOn_of_conflicts edits conflict)
  rw [conflicts_iff] at conflict
  omega

end Finding.EndsLine

namespace Checker

variable {keep : Rule → Bool} {parse : Text → Verdict} {globals : Globals} {text : Text}
  {finding other : Finding}

/-- The finding of a rule is told by the name of the rule. No other rule has that name, and the
parser goes by a name of its own. -/
theorem mem_ruleFindings_of_rule [Engine] {rule : Rule} (builtin : rule ∈ Catalogue.builtin.rules)
    (notParser : rule.id ≠ "syntax-error")
    (member : finding ∈ (keeping keep parse globals).inspect text)
    (named : finding.rule = rule.id) :
    keep rule = true ∧ finding ∈ (keeping keep parse globals).ruleFindings text rule := by
  rcases List.mem_append.mp member with parsed | found
  · have syntaxError : finding.rule = "syntax-error" := by
      rw [parserFindings] at parsed
      split at parsed
      · rw [List.mem_singleton.mp parsed]
        rfl
      all_goals cases parsed
    exact absurd (named.symm.trans syntaxError) notParser
  · obtain ⟨rule', listed, found⟩ := List.mem_flatMap.mp found
    obtain ⟨builtin', kept⟩ := List.mem_filter.mp listed
    have same : rule'.id = rule.id := (rule_of_mem_ruleFindings found).symm.trans named
    obtain rfl := List.inj_on_of_nodup_map nodup_ids_builtin builtin' builtin same
    exact ⟨kept, found⟩

/-- A finding carries the number of the line it starts on, and a remedy if its rule has one. -/
theorem of_mem_ruleFindings {checker : Checker} {rule : Rule}
    (member : finding ∈ checker.ruleFindings text rule) :
    finding.line = some (text.lineNumber finding.offset) ∧ finding.isFixable = rule.isFixable := by
  obtain ⟨findings, searched, listed⟩ := mem_ruleFindings.mp member
  obtain ⟨found, -, -, -, rfl, -⟩ := Rule.exists_match_of_mem_findings? searched listed
  exact ⟨rfl, rfl⟩

end Checker

namespace Semicolon

open Checker

variable {keep : Rule → Bool} {parse : Text → Verdict} {globals : Globals} {text : Text}
  {finding other : Finding}

/-- The rule about semicolons comes first. -/
theorem mem_accepted [Engine] (kept : keep missing = true)
    (member : finding ∈ (keeping keep parse globals).ruleFindings text missing) :
    finding ∈ (keeping keep parse globals).accepted text := by
  have first : (keeping keep parse globals).catalogue.rules =
      missing :: Catalogue.builtin.rules.tail.filter keep := List.filter_cons_of_pos kept
  have apart := ((keeping keep parse globals).pairwise_ruleFindings text missing).imp And.right
  rw [accepted, filter_isFixable_inspect, first, List.flatMap_cons,
    fixableFindings_of_isFixable rfl, accept_append, accept_eq_self apart]
  exact List.mem_append_left _ member

/-- What a missing semicolon conflicts with: the findings on its line of the rules that run to the
end of the line, and those only if there are blanks that both claim. -/
theorem conflicts_iff_lineRules [Engine]
    (member : finding ∈ (keeping keep parse globals).ruleFindings text missing)
    (member' : other ∈ (keeping keep parse globals).inspect text) (fixable : other.isFixable = true)
    (differs : other ≠ finding) :
    conflicts finding other = true ↔
      0 < finding.length ∧ other.line = finding.line ∧ other.rule ∈ lineRules := by
  obtain ⟨rule, builtin, findings, searched, listed⟩ := exists_rule_of_isFixable member' fixable
  have found : other ∈ (keeping keep parse globals).ruleFindings text rule :=
    mem_ruleFindings.mpr ⟨findings, searched, listed⟩
  obtain ⟨line, -⟩ := of_mem_ruleFindings member
  obtain ⟨line', fixable'⟩ := of_mem_ruleFindings found
  rw [fixable] at fixable'
  rw [rule_of_mem_ruleFindings found]
  by_cases same : rule.id = missing.id
  · obtain rfl := List.inj_on_of_nodup_map nodup_ids_builtin builtin (.head _) same
    have apart := ((keeping keep parse globals).pairwise_ruleFindings text missing).imp And.right
    have free := conflicts_of_pairwise apart member found differs
    exact iff_of_false (by simp [free]) fun claims => absurd claims.2.2 (by decide)
  · have runs := runsToLineEnd_of_mem rfl (.head _) fillsLine_missing text member
    obtain ⟨above, front, below, ends⟩ := runs.exists_endsLine
    obtain ⟨left, right, new, edits⟩ :=
      Rule.edits_of_mem_builtin builtin searched listed fixable
    rcases Rule.fillsLine_or_endsSolid builtin fixable'.symm same with
      ⟨among, fills⟩ | ⟨notAmong, solid⟩
    · have runs' := runsToLineEnd_of_mem fixable'.symm builtin fills text found
      have present : 0 < other.length := edits.length_pos (rule_of_mem_ruleFindings found ▸ same)
      rw [ends.conflicts_iff_of_runs line line' runs' present]
      simp [among]
    · obtain ⟨found', left', right', captures, rfl, occurs, -⟩ :=
        Rule.exists_match_of_mem_findings? searched listed
      obtain ⟨_, _, isEnd⟩ := exists_ends member
      have free := ends.conflicts_of_solid isEnd.blank edits (solid _ _ _ _ occurs.fits)
      exact iff_of_false (by simp [free]) fun claims => absurd claims.2.2 notAmong

/-- A missing semicolon is always put in. Another remedy is passed over for it exactly when its
match runs to the end of the same line and the line ends in blanks. -/
theorem conflicts_on_blank_ends [Engine] (keep : Rule → Bool) (parse : Text → Verdict)
    (globals : Globals) (text : Text) :
    let checker := keeping keep parse globals
    ∀ finding ∈ checker.inspect text, finding.rule = missing.id →
      finding ∈ checker.accepted text ∧
      ∀ other ∈ checker.inspect text, other.isFixable = true → other ≠ finding →
        (conflicts finding other = true ↔
          0 < finding.length ∧ other.line = finding.line ∧ other.rule ∈ lineRules) ∧
        (conflicts finding other = true → other ∉ checker.accepted text) := by
  intro checker finding member named
  obtain ⟨kept, found⟩ := mem_ruleFindings_of_rule (.head _) (by decide) member named
  have taken := mem_accepted kept found
  refine ⟨taken, fun other member' fixable differs => ?_⟩
  refine ⟨conflicts_iff_lineRules found member' fixable differs, fun conflict taken' => ?_⟩
  rw [conflicts_of_pairwise (pairwise_accept [] _) taken taken' differs] at conflict
  cases conflict

/-- Two statements without a semicolon, one at the end of its line and one in front of a blank. -/
theorem conflicts_on_blank_ends_of_two_lines :
    let _ : Engine := .unlimited
    let ids := missing.id :: lineRules
    let checker := keeping (fun rule => ids.contains rule.id) (fun _ => .accepted) .builtin
    let text : Text := "console.log(x\nf(); if (a) b() \n".toList
    (∃ finding ∈ checker.inspect text, ∃ other ∈ checker.inspect text,
      finding.rule = missing.id ∧ other.rule = "unclosed-console-call" ∧
        other.line = finding.line ∧ conflicts finding other = false) ∧
    ∃ finding ∈ checker.inspect text, ∃ other ∈ checker.inspect text,
      finding.rule = missing.id ∧ other.rule = "if-without-block" ∧
        conflicts finding other = true ∧ finding ∈ checker.accepted text ∧
        other ∉ checker.accepted text := by
  intro _ ids checker text
  have facts : (checker.inspect text).map (fun finding => (finding.rule, finding.line,
      finding.length, finding.isFixable)) =
      [("missing-semicolon", some 1, 0, true), ("missing-semicolon", some 2, 1, true),
        ("if-without-block", some 2, 11, true), ("unclosed-console-call", some 1, 13, true)] := by
    decide +kernel
  have listed {id : String} {line : Option Nat} {length : Nat} (among : (id, line, length, true) ∈
      (checker.inspect text).map fun finding => (finding.rule, finding.line, finding.length,
        finding.isFixable)) :
      ∃ finding ∈ checker.inspect text, finding.rule = id ∧ finding.line = line ∧
        finding.length = length ∧ finding.isFixable = true := by
    obtain ⟨finding, member, same⟩ := List.mem_map.mp among
    exact ⟨finding, member, by simpa using same⟩
  rw [facts] at listed
  have differs {finding other : Finding} {id : String} (named : finding.rule = missing.id)
      (named' : other.rule = id) (apart : id ≠ missing.id) : other ≠ finding := by
    rintro rfl
    exact apart (named'.symm.trans named)
  constructor
  · obtain ⟨finding, member, named, line, length, -⟩ := listed (.head _)
    obtain ⟨other, member', named', line', -, fixable⟩ :=
      listed (.tail _ (.tail _ (.tail _ (.head _))))
    obtain ⟨-, claims⟩ := conflicts_on_blank_ends _ _ _ text finding member named
    obtain ⟨claims, -⟩ := claims other member' fixable (differs named named' (by decide))
    refine ⟨finding, member, other, member', named, named', line'.trans line.symm, ?_⟩
    rw [Bool.eq_false_iff, ne_eq, claims, length]
    exact fun claimed => absurd claimed.1 (Nat.lt_irrefl 0)
  · obtain ⟨finding, member, named, line, length, -⟩ := listed (.tail _ (.head _))
    obtain ⟨other, member', named', line', -, fixable⟩ := listed (.tail _ (.tail _ (.head _)))
    obtain ⟨taken, claims⟩ := conflicts_on_blank_ends _ _ _ text finding member named
    obtain ⟨claims, passed⟩ := claims other member' fixable (differs named named' (by decide))
    have conflict : conflicts finding other = true :=
      claims.mpr ⟨length ▸ Nat.one_pos, line'.trans line.symm, named' ▸ by decide⟩
    exact ⟨finding, member, other, member', named, named', conflict, taken, passed conflict⟩

/-- The blanks behind an open call are claimed twice, by the call and by the missing semicolon. The
semicolon is put in, and the call is not closed. -/
theorem semicolon_leaves_call_open :
    let _ : Engine := .unlimited
    let ids := ["missing-semicolon", "unclosed-console-call"]
    let checker := keeping (fun rule => ids.contains rule.id) (fun _ => .accepted) .builtin
    let text : Text := "console.log(x  \n".toList
    (∃ finding ∈ checker.inspect text, ∃ other ∈ checker.inspect text,
      finding.rule = missing.id ∧ other.isFixable = true ∧ other.rule ≠ missing.id ∧
        conflicts finding other = true) ∧
      (checker.mend text).skippedOverlap = 1 ∧
      (checker.mend text).text = "console.log(x;  \n".toList := by
  intro _ ids checker text
  have claimed : ((checker.inspect text).any fun finding => (checker.inspect text).any fun other =>
      finding.rule == missing.id && other.isFixable && other.rule != missing.id &&
        conflicts finding other) = true := by
    decide +kernel
  obtain ⟨finding, member, claimed⟩ := List.any_eq_true.mp claimed
  obtain ⟨other, member', claimed⟩ := List.any_eq_true.mp claimed
  simp only [Bool.and_eq_true, beq_iff_eq, bne_iff_ne] at claimed
  obtain ⟨⟨⟨named, fixable⟩, differs⟩, conflict⟩ := claimed
  refine ⟨⟨finding, member, other, member', named, fixable, differs, conflict⟩, ?_⟩
  rw [mend, run_eq_substitute]
  decide +kernel

end Semicolon

end ScriptCheck
