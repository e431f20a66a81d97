import ScriptCheck.Proofs.Placement
import ScriptCheck.Proofs.Remedies

/-!
# What mending a text reports

With the built-in rules, or some of them, every remedy is one that works: it never
declines, and it never gives back what it was given. So nothing that mending passes over
is passed over for any other reason than an overlap, and whenever there is something to
mend, something is mended. Rules that mend whatever they report, and whose findings lie
apart, have all their findings applied.
-/

namespace ScriptCheck

open Repair

namespace Finding.Edits

variable {finding : Finding} {text left right new : Text}

/-- The change is from what a finding matched to its replacement. -/
theorem change?_eq (edits : finding.Edits text left right new) :
    finding.change? = some ⟨finding.matched, new⟩ := by
  rw [Finding.change?, edits.replaced, Option.filter_some, if_pos (by simpa using edits.ne)]
  rfl

/-- A finding that edits a text asks for one substitution. -/
theorem substitution?_eq (edits : finding.Edits text left right new) :
    substitution? text finding = some ⟨finding.offset, finding.length, new⟩ :=
  (substitution?_of_pieces edits.whole edits.offset edits.length edits.replaced edits.ne).2

/-- A finding that edits a text is not stale. -/
theorem isStale_eq (edits : finding.Edits text left right new) : isStale text finding = false :=
  (substitution?_of_pieces edits.whole edits.offset edits.length edits.replaced edits.ne).1

end Finding.Edits

namespace Checker

/-- The checker that searches by those built-in rules that are kept. -/
def keeping [Engine] (keep : Rule → Bool) (parse : Text → Verdict)
    (globals : Globals) : Checker where
  catalogue := ⟨Catalogue.builtin.rules.filter keep⟩
  parse := parse
  globals := globals

variable {keep : Rule → Bool} {parse : Text → Verdict} {globals : Globals}

/-- The built-in rules have different names. -/
theorem nodup_ids_builtin [Engine] : Catalogue.builtin.ids.Nodup := by
  have ids : Catalogue.builtin.ids =
      ["missing-semicolon", "if-without-block", "else-without-block", "const-reassignment",
       "function-keyword-typo", "document-typo", "get-element-by-id-case",
       "unclosed-console-call", "unclosed-brace", "unclosed-paren", "unclosed-string",
       "function-without-return", "undefined-function"] := rfl
  rw [ids]
  decide

/-- A finding with a remedy is one of a rule that is kept. -/
theorem exists_rule_of_isFixable [Engine] {text : Text} {finding : Finding}
    (member : finding ∈ (keeping keep parse globals).inspect text)
    (fixable : finding.isFixable = true) :
    ∃ rule ∈ Catalogue.builtin.rules, ∃ findings,
      rule.findings? globals.knows text = some findings ∧ finding ∈ findings := by
  have listed := List.mem_filter.mpr ⟨member, fixable⟩
  rw [filter_isFixable_inspect] at listed
  obtain ⟨rule, kept, found⟩ := List.mem_flatMap.mp listed
  exact ⟨rule, List.mem_of_mem_filter kept, mem_ruleFindings.mp (List.mem_of_mem_filter found)⟩

/-- A finding with a remedy edits the text. -/
theorem exists_edits [Engine] {text : Text} {finding : Finding}
    (member : finding ∈ (keeping keep parse globals).inspect text)
    (fixable : finding.isFixable = true) :
    ∃ left right new, finding.Edits text left right new := by
  obtain ⟨rule, builtin, findings, searched, found⟩ := exists_rule_of_isFixable member fixable
  exact Rule.edits_of_mem_builtin builtin searched found fixable

/-- The findings that are accepted to be mended. -/
def accepted (checker : Checker) (text : Text) : List Finding :=
  accept [] ((checker.inspect text).filter Finding.isFixable)

/-- An accepted finding edits the text. -/
theorem exists_edits_of_mem_accepted [Engine] {text : Text} {finding : Finding}
    (member : finding ∈ (keeping keep parse globals).accepted text) :
    ∃ left right new, finding.Edits text left right new := by
  obtain ⟨listed, fixable⟩ := List.mem_filter.mp ((accept_sublist [] _).subset member)
  exact exists_edits listed fixable

/-- Every accepted finding is mended. -/
theorem length_substitutions_accepted [Engine] (text : Text) :
    (substitutions text ((keeping keep parse globals).accepted text)).length =
      ((keeping keep parse globals).accepted text).length := by
  rw [substitutions, List.length_filterMap_eq_countP, List.countP_eq_length]
  intro finding member
  obtain ⟨left, right, new, edits⟩ := exists_edits_of_mem_accepted member
  rw [edits.substitution?_eq]
  rfl

/-- No accepted finding is stale. -/
theorem countP_isStale_accepted [Engine] (text : Text) :
    ((keeping keep parse globals).accepted text).countP (isStale text) = 0 := by
  rw [List.countP_eq_zero]
  intro finding member
  obtain ⟨left, right, new, edits⟩ := exists_edits_of_mem_accepted member
  rw [edits.isStale_eq]
  decide

/-- As many remedies are applied as findings are accepted. -/
theorem applied_mend [Engine] (text : Text) :
    ((keeping keep parse globals).mend text).applied =
      ((keeping keep parse globals).accepted text).length := by
  rw [mend, run_eq_substitute]
  exact length_substitutions_accepted text

/-- With any of the built-in rules left out, any parser and any known names: each finding
with a remedy has a change that is one, mending passes over findings for their overlap
alone, and it mends something when there is something to mend. -/
theorem mend_accounts_for_fixable [Engine] (keep : Rule → Bool) (parse : Text → Verdict)
    (globals : Globals) (text : Text) :
    let checker := keeping keep parse globals
    (∀ finding ∈ checker.inspect text, finding.isFixable = true →
        ∃ change, finding.change? = some change ∧ change.old = finding.matched ∧
          change.new ≠ finding.matched) ∧
      (checker.mend text).skippedStale = 0 ∧
      (checker.mend text).applied + (checker.mend text).skippedOverlap =
        (checker.inspect text).countP Finding.isFixable ∧
      ((∃ finding ∈ checker.inspect text, finding.isFixable = true) →
        1 ≤ (checker.mend text).applied) := by
  intro checker
  have report : checker.mend text = _ := run_eq_substitute text (checker.inspect text)
  have applied : (checker.mend text).applied = (checker.accepted text).length := applied_mend text
  refine ⟨?_, ?_, ?_, ?_⟩
  · intro finding member fixable
    obtain ⟨left, right, new, edits⟩ := exists_edits member fixable
    exact ⟨_, edits.change?_eq, rfl, edits.ne⟩
  · rw [report]
    exact countP_isStale_accepted text
  · have fewer : (checker.accepted text).length ≤
        ((checker.inspect text).filter Finding.isFixable).length :=
      (accept_sublist [] _).length_le
    have overlap : (checker.mend text).skippedOverlap =
        ((checker.inspect text).filter Finding.isFixable).length -
          (checker.accepted text).length := by
      rw [report]
      rfl
    rw [applied, overlap, List.countP_eq_length_filter]
    exact Nat.add_sub_of_le fewer
  · rintro ⟨finding, member, fixable⟩
    rw [applied, accepted]
    cases listed : (checker.inspect text).filter Finding.isFixable with
    | nil => exact absurd fixable (List.filter_eq_nil_iff.mp listed finding member)
    | cons first rest =>
      rw [accept]
      exact Nat.succ_le_succ (Nat.zero_le _)

/-- A body without braces and the misspelled name in it overlap, so that one of the two
remedies is applied and the other has to wait. -/
theorem mend_accounts_for_overlap :
    let _ : Engine := .unlimited
    let checker := keeping (fun _ => true) (fun _ => .accepted) .builtin
    let text := "else docuemnt.x()".toList
    (∃ finding ∈ checker.inspect text, finding.isFixable = true) ∧
      1 ≤ (checker.mend text).applied := by
  intro _ checker text
  have present : ∃ finding ∈ checker.inspect text, finding.isFixable = true :=
    List.any_eq_true.mp (by decide +kernel)
  exact ⟨present, (mend_accounts_for_fixable _ _ _ text).2.2.2 present⟩

/-! ### Rules whose findings lie apart -/

variable {checker : Checker} {rule : Rule}

/-- All findings of a rule that mends what it reports are fixable. -/
theorem fixableFindings_of_isFixable (fixable : rule.isFixable = true) (text : Text) :
    checker.fixableFindings text rule = checker.ruleFindings text rule := by
  refine List.filter_eq_self.mpr fun finding member => ?_
  obtain ⟨findings, searched, listed⟩ := mem_ruleFindings.mp member
  obtain ⟨found, _, _, _, rfl, _, _⟩ := Rule.exists_match_of_mem_findings? searched listed
  exact fixable

section Apart

variable (fixable : ∀ rule ∈ checker.catalogue.rules, rule.isFixable = true) (text : Text)
  (apart : (checker.catalogue.rules.flatMap (checker.ruleFindings text)).Pairwise
    fun finding later => conflicts finding later = false)

include fixable in
/-- If all rules mend what they report, all findings have a remedy. -/
theorem filter_isFixable_of_forall :
    (checker.inspect text).filter Finding.isFixable =
      checker.catalogue.rules.flatMap (checker.ruleFindings text) := by
  rw [filter_isFixable_inspect]
  exact List.flatMap_congr fun rule listed =>
    fixableFindings_of_isFixable (fixable rule listed) text

include fixable apart in
/-- When such findings lie apart, all of them are accepted. -/
theorem accepted_of_apart :
    checker.accepted text = checker.catalogue.rules.flatMap (checker.ruleFindings text) := by
  rw [accepted, filter_isFixable_of_forall fixable, accept_eq_self apart]

include fixable apart in
/-- Mending then carries out all substitutions at once. -/
theorem mend_of_apart :
    checker.mend text =
      { text := substitute (substitutions text (checker.accepted text)) text
        applied := (substitutions text (checker.accepted text)).length
        skippedOverlap := 0
        skippedStale := (checker.accepted text).countP (isStale text) } := by
  have all := accepted_of_apart fixable text apart
  rw [← filter_isFixable_of_forall fixable] at all
  rw [mend, run_eq_substitute]
  simp only [accepted] at all ⊢
  rw [all, Nat.sub_self]

end Apart

/-- A rule that mends what it reports has all findings accepted. -/
theorem accepted_of_one (one : checker.catalogue.rules = [rule]) (fixable : rule.isFixable = true)
    (text : Text) : checker.accepted text = checker.ruleFindings text rule := by
  rw [accepted_of_apart (by simpa [one] using fixable), one, List.flatMap_singleton]
  rw [one, List.flatMap_singleton]
  exact (checker.pairwise_ruleFindings text rule).imp And.right

/-- Mending by such a rule alone carries out all at once. -/
theorem mend_of_one (one : checker.catalogue.rules = [rule]) (fixable : rule.isFixable = true)
    (text : Text) :
    checker.mend text =
      { text := substitute (substitutions text (checker.ruleFindings text rule)) text
        applied := (substitutions text (checker.ruleFindings text rule)).length
        skippedOverlap := 0
        skippedStale := (checker.ruleFindings text rule).countP (isStale text) } := by
  rw [mend_of_apart (by simpa [one] using fixable), accepted_of_one one fixable]
  rw [one, List.flatMap_singleton]
  exact (checker.pairwise_ruleFindings text rule).imp And.right

end Checker

end ScriptCheck
