import ScriptCheck.Proofs.Decision
import ScriptCheck.Proofs.Remedies
import ScriptCheck.Proofs.WholeWords

/-!
# No search fails

A check fails when it cuts a text where there is no boundary, or when it counts back from
an offset by more than the offset. With the built-in rules none does, on any text and
whatever names are known: each rule has its findings, and each finding with a remedy has
its replacement. A check may still say no; what is excluded is that it says nothing, and
with it the loss of a rule's findings.

That each check gives an answer is part of what it decides. What the layout itself and
the search for words rest on are the loops over the bytes, which do not fail either.
-/

namespace ScriptCheck

open Check

variable {found : Match} {text left right : Text} {captures : List Capture} {known : Text → Bool}

namespace Rule

/-- A rule whose check decides wherever its pattern occurs has its findings, since every match of a
search occurs in the text. -/
theorem exists_findings? {rule : Rule} {answer : Text → Bool}
    (decides : ∀ check, rule.confirm = some check → ∀ found left right captures,
      found.Occurs rule.pattern text left right captures →
        ∃ holds, (check ⟨text, text.layout, known, found⟩).Decides answer holds) :
    ∃ findings, rule.findings? known text = some findings := by
  suffices accepted : ∃ kept, rule.accepted? known text = some kept by
    obtain ⟨kept, accepted⟩ := accepted
    exact ⟨_, congrArg (Option.map _) accepted⟩
  cases confirm : rule.confirm with
  | none => exact ⟨_, by rw [accepted?, acceptedAmong?, confirm]⟩
  | some check =>
    have each : ∀ found, ∃ holds, found ∈ rule.pattern.allMatches text →
        (check ⟨text, text.layout, known, found⟩).Decides answer holds := by
      intro found
      by_cases listed : found ∈ rule.pattern.allMatches text
      · obtain ⟨left, right, captures, occurs⟩ := Pattern.occurs_of_mem_allMatches listed
        obtain ⟨holds, decided⟩ := decides check confirm found left right captures occurs
        exact ⟨holds, fun _ => decided⟩
      · exact ⟨false, fun member => absurd member listed⟩
    obtain ⟨holds, decided⟩ := Classical.axiomOfChoice each
    exact ⟨_, accepted?_of_decides confirm decided⟩

/-- The check of a built-in rule answers wherever the pattern of the rule occurs. The rules are gone
through one by one. -/
theorem answers_of_mem_builtin [Engine] {rule : Rule} (builtin : rule ∈ Catalogue.builtin.rules)
    {check : Site → Check Bool} (confirm : rule.confirm = some check)
    (occurs : found.Occurs rule.pattern text left right captures) :
    ∃ holds, (check ⟨text, text.layout, known, found⟩).Decides (Call.isDeclared text) holds := by
  simp only [Catalogue.builtin, List.mem_cons, List.not_mem_nil, or_false] at builtin
  rcases builtin with
    rfl | rfl | rfl | rfl | rfl | rfl | rfl | rfl | rfl | rfl | rfl | rfl | rfl <;>
    obtain rfl := Option.some.inj confirm
  · exact ⟨_, Semicolon.decides_isMissing _ occurs⟩
  · exact ⟨_, decides_pure _⟩
  · exact ⟨_, Block.decides_isBareElse _ _⟩
  · exact ⟨_, Reassignment.decides_isReassigned _ occurs⟩
  · exact ⟨_, decides_pure _⟩
  · exact ⟨_, decides_pure _⟩
  · exact ⟨_, decides_pure _⟩
  · exact ⟨_, decides_pure _⟩
  · exact ⟨_, decides_pure _⟩
  · exact ⟨_, decides_pure _⟩
  · exact ⟨_, decides_pure _⟩
  · exact ⟨_, Return.decides_lacksReturn _ occurs⟩
  · exact ⟨_, Call.decides_isUndefined occurs⟩

/-- On every text and whatever names are known, nothing fails: the layout can be read off
the bytes, words can be found in the bytes, every built-in rule has its findings, and
every finding with a remedy has its replacement. -/
theorem builtin_never_fails [Engine] (known : Text → Bool) (text : Text) :
    text.byteLayout? = some text.layout ∧
      (∀ word : Text, word ≠ [] → text.wordFrom? word 0 = some (text.containsWord word)) ∧
      ∀ rule ∈ Catalogue.builtin.rules, ∃ findings, rule.findings? known text = some findings ∧
        ∀ finding ∈ findings, finding.isFixable = true →
          ∃ new, finding.replacement? = some new := by
  refine ⟨text.byteLayout?_eq, fun word present => Text.wordFrom?_eq [] text present, ?_⟩
  intro rule builtin
  have listed : ∃ findings, rule.findings? known text = some findings :=
    exists_findings? fun check confirm _ _ _ _ occurs =>
      answers_of_mem_builtin builtin confirm occurs
  obtain ⟨findings, found⟩ := listed
  refine ⟨findings, found, ?_⟩
  intro finding member fixable
  obtain ⟨left, right, new, edits⟩ := edits_of_mem_builtin builtin found member fixable
  exact ⟨new, edits.replaced⟩

/-- A constant that is assigned again behind a literal in which a backslash takes a
character of two bytes along. -/
theorem builtin_never_fails_behind_escape :
    let _ : Engine := .unlimited
    (∃ findings, Reassignment.constant.findings? (fun _ => false)
        "const a = '\\é'; a = 2".toList = some findings ∧
      ∀ finding ∈ findings, finding.isFixable = true → ∃ new, finding.replacement? = some new) ∧
    ((Reassignment.constant.findings? (fun _ => false) "const a = '\\é'; a = 2".toList).any fun
      findings => findings.any Finding.isFixable) = true := by
  intro _
  exact ⟨(builtin_never_fails _ _).2.2 _ (by simp [Catalogue.builtin]), by decide +kernel⟩

end Rule

end ScriptCheck
