import ScriptCheck.Checker
import ScriptCheck.Proofs.Confirmation
import ScriptCheck.Proofs.Position
import ScriptCheck.Proofs.Substitution

/-!
# Where findings stand

A checker reports what its parser says and then, rule by rule, what each rule finds.
Nothing is assumed here about the rules: their patterns, checks and remedies may be any,
and a check may fail.

A finding of a rule stands in the text where it says, its line and column are those of
that place, and its first group is the match as a whole. The findings of one rule follow
each other in the text. They may touch, and empty ones may lie at the edge of another, but
no two of them lay claim to the same text. So when remedies are applied, a finding is
passed over only for one of another rule.

How patterns are searched for does not matter for this. It is shown for every list of matches
that keeps to the contract of a search, `Searched`, and then for the search of patterns, which
keeps to it.
-/

namespace ScriptCheck

open Repair

/-! ### The matches of one search -/

namespace Pattern

variable {pattern : Pattern}

/-- A match starts at the place where the pattern was tried. -/
theorem start_of_matchAt? {cursor : Cursor} {found : Match}
    (matched : pattern.matchAt? cursor = some found) : found.start = cursor.offset := by
  obtain ⟨reading, -, rfl⟩ := Option.map_eq_some_iff.mp matched
  rfl

/-- A match does not stop in front of its start. -/
theorem start_le_stop_of_matchAt? {cursor : Cursor} {found : Match}
    (matched : pattern.matchAt? cursor = some found) : found.start ≤ found.stop := by
  obtain ⟨reading, first, rfl⟩ := Option.map_eq_some_iff.mp matched
  obtain ⟨body, captures, spans, -, -⟩ :=
    advances_of_mem_ends pattern ⟨cursor, []⟩ reading (List.mem_of_mem_head? first)
  show cursor.offset ≤ reading.cursor.offset
  rw [spans.offset_eq]
  exact Nat.le_add_right _ _

/-- Behind a match the search goes on where the match stopped, or later, and passes over an
empty match right there. -/
theorem beyond_of_mem_matchesFrom {cursors : List Cursor} {last : Nat} {found : Match}
    (member : found ∈ pattern.matchesFrom (some last) cursors) :
    last ≤ found.start ∧ last < found.stop := by
  induction cursors generalizing last with
  | nil => simp [matchesFrom] at member
  | cons cursor rest ih =>
    rw [matchesFrom] at member
    split at member
    · exact ih member
    · rename_i behind
      have reached : last ≤ cursor.offset := by simpa using behind
      split at member
      · exact ih member
      · rename_i first matched
        have start : first.start = cursor.offset := start_of_matchAt? matched
        have ordered : first.start ≤ first.stop := start_le_stop_of_matchAt? matched
        split at member
        · exact ih member
        · rename_i counts
          rcases List.mem_cons.mp member with rfl | later
          · have different : ¬(found.stop = cursor.offset ∧ last = cursor.offset) := by
              simpa using counts
            omega
          · have further : first.stop ≤ found.start ∧ first.stop < found.stop :=
              ih later
            omega

/-- Each match starts where the one before it has stopped, or later, and stops further on. -/
theorem pairwise_beyond_matchesFrom (last : Option Nat) (cursors : List Cursor) :
    (pattern.matchesFrom last cursors).Pairwise fun found later =>
      found.stop ≤ later.start ∧ found.stop < later.stop := by
  induction cursors generalizing last with
  | nil => exact .nil
  | cons cursor rest ih =>
    rw [matchesFrom]
    split
    · exact ih last
    · split
      · exact ih last
      · split
        · exact ih last
        · refine List.pairwise_cons.mpr ⟨?_, ih _⟩
          intro later member
          exact beyond_of_mem_matchesFrom member

end Pattern

/-- What matches in a text have to keep to if one search through the text has found them. Each
match stands in the text where it says. Each starts behind the start of the one before it, where
that one has stopped or later, and it is not empty right behind it. Nothing is said about which
matches there are. -/
structure Searched (text : Text) (candidates : List Match) : Prop where
  stands : ∀ found ∈ candidates, ∃ left right, text = left ++ found.body ++ right ∧
    found.start = left.width ∧ found.whole.width = found.body.width ∧
    found.stop = found.start + found.whole.width
  beyond : candidates.Pairwise fun found later =>
    found.start < later.start ∧ found.stop ≤ later.start ∧ found.stop < later.stop

/-- The matches of any pattern keep to the contract. -/
theorem Pattern.searched_allMatches (pattern : Pattern) (text : Text) :
    Searched text (pattern.allMatches text) where
  stands := by
    intro found member
    obtain ⟨left, right, captures, occurs⟩ := occurs_of_mem_allMatches member
    refine ⟨left, right, occurs.whole, occurs.start_eq, occurs.width_eq, ?_⟩
    rw [occurs.width_eq, occurs.start_eq, occurs.stop_eq]
  beyond := (pattern.pairwise_allMatches text).and (pairwise_beyond_matchesFrom none _)

/-- A finding stops where its match stops. -/
theorem Searched.stop_finding {text : Text} {candidates : List Match} {found : Match}
    (search : Searched text candidates) (rule : Rule) (member : found ∈ candidates) :
    (rule.finding text found).stop = found.stop := by
  obtain ⟨-, -, -, -, -, stop⟩ := search.stands found member
  exact stop.symm

/-! ### The findings of one rule -/

/-- A finding is placed in a text, between what stands before and after it. -/
structure Finding.Placed (finding : Finding) (text before after : Text) : Prop where
  whole : text = before ++ finding.matched ++ after
  offset : finding.offset = before.width
  length : finding.length = finding.matched.width
  group : finding.groups.head? = some (some finding.matched)
  line : finding.line = some (before.count '\n' + 1)
  column : finding.column = some (before.lastLine.length + 1)

namespace Rule

variable {rule : Rule} {known : Text → Bool} {text : Text} {candidates : List Match}
  {findings : List Finding}

/-- What a rule finds stands in the text. -/
theorem exists_placed (search : Searched text candidates)
    (searched : rule.findingsAmong? known text candidates = some findings) {finding : Finding}
    (member : finding ∈ findings) : ∃ before after, finding.Placed text before after := by
  obtain ⟨kept, accepted, rfl⟩ := Option.map_eq_some_iff.mp searched
  obtain ⟨found, listed, rfl⟩ := List.mem_map.mp member
  obtain ⟨left, right, whole, start, width, -⟩ :=
    search.stands found ((acceptedAmong?_spec accepted).1.subset listed)
  refine ⟨left, right, whole, start, width, rfl, ?_, ?_⟩
  · show some (text.lineNumber found.start) = _
    rw [start, whole, List.append_assoc, Text.lineNumber_width]
  · show some (text.columnNumber found.start) = _
    rw [start, whole, List.append_assoc, Text.columnNumber_width]

/-- The findings of a rule follow each other and claim no text twice. -/
theorem pairwise_apart (search : Searched text candidates)
    (searched : rule.findingsAmong? known text candidates = some findings) :
    findings.Pairwise fun finding later =>
      finding.offset < later.offset ∧ conflicts finding later = false := by
  obtain ⟨kept, accepted, rfl⟩ := Option.map_eq_some_iff.mp searched
  have sublist := (acceptedAmong?_spec accepted).1
  refine List.pairwise_map.mpr ((search.beyond.sublist sublist).imp_of_mem ?_)
  rintro found later member - ⟨further, ordered, -⟩
  refine ⟨further, ?_⟩
  rw [← Bool.not_eq_true, conflicts_iff, search.stop_finding rule (sublist.subset member)]
  rintro ⟨-, inside⟩
  exact absurd ordered (Nat.not_le.mpr inside)

end Rule

/-! ### Findings that are passed over -/

namespace Repair

/-- Which findings were taken matters, not their order. -/
theorem accept_congr {taken taken' : List Finding}
    (same : ∀ finding, finding ∈ taken ↔ finding ∈ taken') (findings : List Finding) :
    accept taken findings = accept taken' findings := by
  induction findings generalizing taken taken' with
  | nil => rfl
  | cons finding rest ih =>
    have conflicting : (taken.any fun other => conflicts other finding) =
        taken'.any fun other => conflicts other finding := by
      rw [Bool.eq_iff_iff, List.any_eq_true, List.any_eq_true]
      simp only [same]
    have same' : ∀ other, other ∈ finding :: taken ↔ other ∈ finding :: taken' := by
      intro other
      rw [List.mem_cons, List.mem_cons, same]
    rw [accept, accept, conflicting, ih same, ih same']

/-- Findings are accepted front to back. -/
theorem accept_append (taken front rest : List Finding) :
    accept taken (front ++ rest) =
      accept taken front ++ accept (taken ++ accept taken front) rest := by
  induction front generalizing taken with
  | nil => simp [accept]
  | cons finding front ih =>
    rw [List.cons_append, accept, accept]
    split
    · exact ih taken
    · rw [ih, List.cons_append]
      congr 2
      refine accept_congr (fun other => ?_) rest
      simp [or_left_comm]

/-- Among findings that do not conflict, only those taken before decide, so that acceptance is a
filter. -/
theorem accept_of_pairwise (taken : List Finding) {findings : List Finding}
    (apart : findings.Pairwise fun finding later => conflicts finding later = false) :
    accept taken findings =
      findings.filter fun finding => !taken.any fun other => conflicts other finding := by
  induction findings generalizing taken with
  | nil => rfl
  | cons finding rest ih =>
    obtain ⟨free, apart'⟩ := List.pairwise_cons.mp apart
    rw [accept, ih taken apart', ih (finding :: taken) apart',
      List.filter_cons]
    have others : rest.filter (fun other => !(finding :: taken).any fun f => conflicts f other) =
        rest.filter fun other => !taken.any fun f => conflicts f other := by
      refine List.filter_congr fun other member => ?_
      rw [List.any_cons, free other member, Bool.false_or]
    rw [others]
    cases taken.any fun other => conflicts other finding <;> rfl

/-- Findings without a conflict are all accepted. -/
theorem accept_eq_self {findings : List Finding}
    (free : findings.Pairwise fun finding later => conflicts finding later = false) :
    accept [] findings = findings := by
  rw [accept_of_pairwise [] free]
  apply List.filter_eq_self.mpr
  intro finding _
  simp

end Repair

namespace Checker

/-- A finding of a rule is one of a search in which its check did not fail. -/
theorem mem_ruleFindings {checker : Checker} {text : Text} {rule : Rule} {finding : Finding} :
    finding ∈ checker.ruleFindings text rule ↔
      ∃ findings, rule.findings? checker.globals.knows text = some findings ∧
        finding ∈ findings := by
  rw [ruleFindings]
  cases rule.findings? checker.globals.knows text with
  | none => simp
  | some findings => simp

/-- A finding goes by the name of its rule. -/
theorem rule_of_mem_ruleFindings {checker : Checker} {text : Text} {rule : Rule} {finding : Finding}
    (member : finding ∈ checker.ruleFindings text rule) : finding.rule = rule.id := by
  obtain ⟨findings, searched, member⟩ := mem_ruleFindings.mp member
  obtain ⟨found, _, _, _, rfl, -⟩ := Rule.exists_match_of_mem_findings? searched member
  rfl

/-- Go through the rules, given the findings accepted from the rules before them, and count
the findings of each rule that conflict with one accepted from an earlier rule. -/
def refusalsOf (fixable : Rule → List Finding) (accepted : List Finding) : List Rule → Nat
  | [] => 0
  | rule :: rest =>
    let (refused, free) := (fixable rule).partition fun finding =>
      accepted.any fun other => conflicts other finding
    refused.length + refusalsOf fixable (accepted ++ free) rest

/-- Every finding of the rules is accepted or refused, if the findings of one rule do not conflict.
The induction is on the rules; those accepted before a rule decide about its findings. -/
theorem length_accept_add_refusalsOf {fixable : Rule → List Finding}
    (apart : ∀ rule, (fixable rule).Pairwise fun finding later => conflicts finding later = false)
    (accepted : List Finding) (rules : List Rule) :
    (accept accepted (rules.flatMap fixable)).length + refusalsOf fixable accepted rules =
      (rules.flatMap fixable).length := by
  induction rules generalizing accepted with
  | nil => rfl
  | cons rule rest ih =>
    have free := accept_of_pairwise accepted (apart rule)
    have split : (fixable rule).length = _ :=
      List.length_eq_length_filter_add fun finding =>
        accepted.any fun other => conflicts other finding
    have further := ih (accepted ++ accept accepted (fixable rule))
    rw [List.flatMap_cons, accept_append, List.length_append, List.length_append, refusalsOf,
      List.partition_eq_filter_filter]
    simp only [Function.comp_def]
    rw [free] at further ⊢
    omega

variable (checker : Checker) (text : Text)

/-! ### Any search -/

/-- The findings of one rule among the matches that a search has given it. -/
def ruleFindingsAmong (search : Rule → List Match) (rule : Rule) : List Finding :=
  (rule.findingsAmong? checker.globals.knows text (search rule)).getD []

/-- The findings for a text that was searched in some way for the pattern of each rule. -/
def inspectAmong (search : Rule → List Match) : List Finding :=
  checker.parserFindings text ++
    checker.catalogue.rules.flatMap (checker.ruleFindingsAmong text search)

/-- The findings of a rule start further on and do not conflict. -/
theorem pairwise_ruleFindingsAmong {search : Rule → List Match} {rule : Rule}
    (contract : Searched text (search rule)) :
    (checker.ruleFindingsAmong text search rule).Pairwise fun finding later =>
      finding.offset < later.offset ∧ conflicts finding later = false := by
  rw [ruleFindingsAmong]
  cases searched : rule.findingsAmong? checker.globals.knows text (search rule) with
  | none => exact .nil
  | some findings => exact Rule.pairwise_apart contract searched

/-- The parser offers no remedy. -/
theorem filter_isFixable_inspectAmong (search : Rule → List Match) :
    (checker.inspectAmong text search).filter Finding.isFixable =
      checker.catalogue.rules.flatMap fun rule =>
        (checker.ruleFindingsAmong text search rule).filter Finding.isFixable := by
  have parser : (checker.parserFindings text).filter Finding.isFixable = [] := by
    rw [parserFindings]
    split <;> rfl
  rw [inspectAmong, List.filter_append, parser, List.nil_append, List.filter_flatMap]

/-- With any rules, parser and known names, and for any way of searching that keeps to the contract:
the parser's finding comes first and then what each rule finds; what a rule finds is placed, in
order and free of conflicts; a remedy is passed over only for one of an earlier rule. -/
theorem inspectAmong_places_findings {search : Rule → List Match}
    (contract : ∀ rule, Searched text (search rule)) :
    checker.inspectAmong text search =
        (match checker.parse text with
          | .rejected diagnostic => [parserFinding diagnostic]
          | .accepted => []
          | .failed => []) ++
        (checker.catalogue.rules.map fun rule =>
          match rule.findingsAmong? checker.globals.knows text (search rule) with
          | some findings => findings
          | none => []).flatten ∧
      (∀ (rule : Rule) (findings : List Finding),
        rule.findingsAmong? checker.globals.knows text (search rule) = some findings →
        (∀ finding ∈ findings, ∃ before after, finding.Placed text before after) ∧
          findings.Pairwise fun finding later =>
            finding.offset < later.offset ∧ conflicts finding later = false ∧
              conflicts later finding = false) ∧
      (Repair.run text (checker.inspectAmong text search)).skippedOverlap =
        refusalsOf (fun rule =>
          (checker.ruleFindingsAmong text search rule).filter Finding.isFixable)
          [] checker.catalogue.rules := by
  refine ⟨?_, ?_, ?_⟩
  · have rules : checker.ruleFindingsAmong text search = fun rule =>
        match rule.findingsAmong? checker.globals.knows text (search rule) with
        | some findings => findings
        | none => [] := by
      funext rule
      rw [ruleFindingsAmong]
      cases rule.findingsAmong? checker.globals.knows text (search rule) <;> rfl
    rw [inspectAmong, List.flatMap_def, rules]
    rfl
  · intro rule findings searched
    refine ⟨fun finding member => Rule.exists_placed (contract rule) searched member, ?_⟩
    refine (Rule.pairwise_apart (contract rule) searched).imp ?_
    rintro finding later ⟨increasing, apart⟩
    exact ⟨increasing, apart, by rwa [conflicts_comm]⟩
  · have apart (rule : Rule) :
        ((checker.ruleFindingsAmong text search rule).filter Finding.isFixable).Pairwise
          fun finding later => conflicts finding later = false :=
      ((checker.pairwise_ruleFindingsAmong text (contract rule)).imp And.right).filter _
    have counted := length_accept_add_refusalsOf apart [] checker.catalogue.rules
    rw [run_eq_substitute]
    show _ - _ = _
    rw [filter_isFixable_inspectAmong]
    omega

/-! ### The search of patterns -/

/-- The findings of a rule that have a remedy. -/
def fixableFindings (rule : Rule) : List Finding :=
  (checker.ruleFindings text rule).filter Finding.isFixable

/-- Go through the rules and count the findings of each that conflict with one accepted from an
earlier rule. -/
def refusals (accepted : List Finding) (rules : List Rule) : Nat :=
  refusalsOf (checker.fixableFindings text) accepted rules

/-- The findings of a rule start further on and do not conflict. -/
theorem pairwise_ruleFindings (rule : Rule) :
    (checker.ruleFindings text rule).Pairwise fun finding later =>
      finding.offset < later.offset ∧ conflicts finding later = false :=
  @pairwise_ruleFindingsAmong checker text (fun rule => rule.pattern.allMatches text) rule
    (rule.pattern.searched_allMatches text)

@[inherit_doc filter_isFixable_inspectAmong]
theorem filter_isFixable_inspect :
    (checker.inspect text).filter Finding.isFixable =
      checker.catalogue.rules.flatMap (checker.fixableFindings text) :=
  checker.filter_isFixable_inspectAmong text fun rule => rule.pattern.allMatches text

/-- With any rules, parser and known names: the parser's finding comes first, if it rejects
the text, and then what each rule finds, in the order of the rules, with nothing from a
rule whose check fails. What a rule finds stands in the text where it says, further and
further on, and without conflict. A remedy is passed over only for one of an earlier rule.
Nothing of this depends on how patterns are searched for, as long as the search keeps to its
contract. -/
theorem inspect_places_findings :
    checker.inspect text =
        (match checker.parse text with
          | .rejected diagnostic => [parserFinding diagnostic]
          | .accepted => []
          | .failed => []) ++
        (checker.catalogue.rules.map fun rule =>
          match rule.findings? checker.globals.knows text with
          | some findings => findings
          | none => []).flatten ∧
      (∀ (rule : Rule) (findings : List Finding),
        rule.findings? checker.globals.knows text = some findings →
        (∀ finding ∈ findings, ∃ before after, finding.Placed text before after) ∧
          findings.Pairwise fun finding later =>
            finding.offset < later.offset ∧ conflicts finding later = false ∧
              conflicts later finding = false) ∧
      (checker.mend text).skippedOverlap =
        checker.refusals text [] checker.catalogue.rules :=
  checker.inspectAmong_places_findings text fun rule => rule.pattern.searched_allMatches text

/-- A name behind a newline and a character of two bytes is placed by its bytes, and its
column by the characters. -/
theorem inspect_places_misspelling :
    let checker : Checker := ⟨⟨[Spelling.documentName]⟩, fun _ => .failed, .none⟩
    let text := "é\né docuemnt".toList
    ∃ findings finding before after,
      Spelling.documentName.findings? checker.globals.knows text = some findings ∧
        finding ∈ findings ∧ finding.Placed text before after ∧ finding.offset = 6 ∧
        finding.line = some 2 ∧ finding.column = some 3 := by
  intro checker text
  have found : ((Spelling.documentName.findings? checker.globals.knows text).any fun findings =>
      findings.any fun finding =>
        finding.offset == 6 && finding.line == some 2 && finding.column == some 3) = true := by
    decide +kernel
  obtain ⟨findings, searched, listed⟩ := Option.any_eq_true _ _ |>.mp found
  obtain ⟨finding, member, place⟩ := List.any_eq_true.mp listed
  obtain ⟨before, after, placed⟩ :=
    ((inspect_places_findings checker text).2.1 _ findings searched).1 finding member
  simp only [Bool.and_eq_true, beq_iff_eq] at place
  exact ⟨findings, finding, before, after, searched, member, placed, place.1.1, place.1.2, place.2⟩

end Checker

end ScriptCheck
