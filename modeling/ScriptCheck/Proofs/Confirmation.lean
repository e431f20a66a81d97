import ScriptCheck.Proofs.Matching
import ScriptCheck.Rule.Basic

/-!
# What a confirmed match says

A rule keeps the matches that its check confirms. The checks are computations that may
fail and may remember answers. A check that has said yes is taken apart here one step at a
time, and what is remembered plays no part in it.
-/

namespace ScriptCheck

namespace Check

variable {α β : Type}

/-- The check can give the answer. -/
def Yields (check : Check α) (answer : α) : Prop := ∃ memo memo', check memo = some (answer, memo')

/-- A check that just answers gives that answer and no other. -/
theorem yields_pure {value answer : α} : (pure value : Check α).Yields answer ↔ value = answer := by
  constructor
  · rintro ⟨memo, memo', result⟩
    exact congrArg Prod.fst (Option.some.inj result)
  · rintro rfl
    exact ⟨[], [], rfl⟩

/-- Two checks in a row have each given an answer. -/
theorem Yields.of_bind {check : Check α} {next : α → Check β} {answer : β}
    (yields : (check >>= next).Yields answer) :
    ∃ value, check.Yields value ∧ (next value).Yields answer := by
  obtain ⟨memo, memo', result⟩ := yields
  obtain ⟨⟨value, middle⟩, first, second⟩ := Option.bind_eq_some_iff.mp result
  exact ⟨value, ⟨memo, middle, first⟩, middle, memo', second⟩

/-- A check that needs a value gives it, if there is one. -/
theorem yields_need {value : Option α} {answer : α} :
    (need value).Yields answer ↔ value = some answer := by
  constructor
  · rintro ⟨memo, memo', result⟩
    obtain ⟨found, rfl, pair⟩ := Option.map_eq_some_iff.mp result
    exact congrArg (fun pair => some pair.1) pair
  · rintro rfl
    exact ⟨[], [], rfl⟩

end Check

namespace Rule

/-- The confirmed matches stand in their order, and the check said yes to each. The induction
carries the memo from one match to the next. -/
theorem confirmed_spec {check : Match → Check Bool} {candidates kept : List Match}
    {memo memo' : Memo}
    (result : confirmed check candidates memo = some (kept, memo')) :
    kept.Sublist candidates ∧ ∀ found ∈ kept, (check found).Yields true := by
  induction candidates generalizing kept memo memo' with
  | nil =>
    obtain rfl : [] = kept := congrArg Prod.fst (Option.some.inj result)
    exact ⟨.slnil, by simp⟩
  | cons first rest ih =>
    obtain ⟨⟨holds, middle⟩, checked, further⟩ := Option.bind_eq_some_iff.mp result
    obtain ⟨⟨others, middle'⟩, confirmed', last⟩ := Option.bind_eq_some_iff.mp further
    obtain ⟨sublist, each⟩ := ih confirmed'
    obtain rfl : (if holds then first :: others else others) = kept :=
      congrArg Prod.fst (Option.some.inj last)
    cases holds with
    | false => exact ⟨sublist.cons _, each⟩
    | true =>
      refine ⟨sublist.cons_cons _, ?_⟩
      intro found member
      rcases List.mem_cons.mp member with rfl | member
      · exact ⟨memo, middle, checked⟩
      · exact each found member

/-- The matches that a rule keeps are among the candidates, in their order, and its check, if it has
one, says yes to each. -/
theorem acceptedAmong?_spec {rule : Rule} {known : Text → Bool} {text : Text}
    {candidates kept : List Match}
    (accepted : rule.acceptedAmong? known text candidates = some kept) :
    kept.Sublist candidates ∧
      ∀ found ∈ kept, ∀ check, rule.confirm = some check →
        (check ⟨text, text.layout, known, found⟩).Yields true := by
  rw [acceptedAmong?] at accepted
  split at accepted
  · rename_i none
    obtain rfl : candidates = kept := Option.some.inj accepted
    refine ⟨List.Sublist.refl _, ?_⟩
    intro found member check confirm
    rw [none] at confirm
    cases confirm
  · rename_i check confirm
    obtain ⟨⟨matches', memo⟩, result, rfl⟩ := Option.map_eq_some_iff.mp accepted
    obtain ⟨sublist, each⟩ := confirmed_spec result
    refine ⟨sublist, ?_⟩
    intro found member check' confirm'
    obtain rfl : check = check' := Option.some.inj (confirm.symm.trans confirm')
    exact each found member

@[inherit_doc acceptedAmong?_spec]
theorem accepted?_spec {rule : Rule} {known : Text → Bool} {text : Text} {kept : List Match}
    (accepted : rule.accepted? known text = some kept) :
    kept.Sublist (rule.pattern.allMatches text) ∧
      ∀ found ∈ kept, ∀ check, rule.confirm = some check →
        (check ⟨text, text.layout, known, found⟩).Yields true :=
  acceptedAmong?_spec accepted

/-- Where a finding of a rule comes from. -/
theorem exists_match_of_mem_findings? {rule : Rule} {known : Text → Bool} {text : Text}
    {findings : List Finding} (found : rule.findings? known text = some findings)
    {finding : Finding} (member : finding ∈ findings) :
    ∃ found left right captures, finding = rule.finding text found ∧
      found.Occurs rule.pattern text left right captures ∧
      ∀ check, rule.confirm = some check →
        (check ⟨text, text.layout, known, found⟩).Yields true := by
  obtain ⟨kept, accepted, rfl⟩ := Option.map_eq_some_iff.mp found
  obtain ⟨found, listed, rfl⟩ := List.mem_map.mp member
  obtain ⟨sublist, confirmed⟩ := accepted?_spec accepted
  obtain ⟨left, right, captures, occurs⟩ :=
    Pattern.occurs_of_mem_allMatches (sublist.subset listed)
  exact ⟨found, left, right, captures, rfl, occurs, confirmed found listed⟩

/-- The findings of a rule start further and further on. -/
theorem pairwise_findings? {rule : Rule} {known : Text → Bool} {text : Text}
    {findings : List Finding} (found : rule.findings? known text = some findings) :
    findings.Pairwise fun finding later => finding.offset < later.offset := by
  obtain ⟨kept, accepted, rfl⟩ := Option.map_eq_some_iff.mp found
  exact List.pairwise_map.mpr
    ((rule.pattern.pairwise_allMatches text).sublist (accepted?_spec accepted).1)

end Rule

end ScriptCheck
