import ScriptCheck.Proofs.Placement

/-!
# Leaving out rules

Rules are left out by their names, in any order and as often as one likes. A name that no
rule has is refused. It is looked up among all rules, not among those that are left, so a
name given twice is no unknown name.

Every rule searches the text on its own: with its own layout of the text, its own kept
answers and its own failure. What the rules that stay report is therefore what they
reported among all rules, also when the check of some rule fails. The finding of the
parser belongs to no rule and is not left out, not even by a rule that has its name.
-/

namespace ScriptCheck

namespace Catalogue

variable {catalogue reduced : Catalogue} {ids : List String}

/-- No name is refused when all of them are names of rules. -/
theorem find?_unknown_eq_none_iff :
    (ids.find? fun id => !catalogue.ids.contains id) = none ↔ ∀ id ∈ ids, id ∈ catalogue.ids := by
  simp only [List.find?_eq_none, Bool.not_eq_true', Bool.not_eq_false, List.contains_iff_mem]

/-- Rules are left out when all names are names of rules, and the others are kept in their order. -/
theorem without_eq_ok_iff :
    catalogue.without ids = .ok reduced ↔
      (∀ id ∈ ids, id ∈ catalogue.ids) ∧
        reduced.rules = catalogue.rules.filter fun rule => !ids.contains rule.id := by
  rw [← find?_unknown_eq_none_iff, without]
  constructor
  · intro answered
    split at answered
    · cases answered
    · rename_i known
      cases answered
      exact ⟨known, rfl⟩
  · rintro ⟨known, rules⟩
    rw [known]
    cases reduced
    cases rules
    rfl

/-- The first name that no rule has is refused, and the answer lists the names there are. -/
theorem without_eq_error_iff {unknown : UnknownRule} :
    catalogue.without ids = .error unknown ↔
      (∃ known rest, ids = known ++ unknown.id :: rest ∧ (∀ id ∈ known, id ∈ catalogue.ids) ∧
        unknown.id ∉ catalogue.ids) ∧ unknown.available = catalogue.ids := by
  have refused : (ids.find? fun id => !catalogue.ids.contains id) = some unknown.id ↔
      ∃ known rest, ids = known ++ unknown.id :: rest ∧ (∀ id ∈ known, id ∈ catalogue.ids) ∧
        unknown.id ∉ catalogue.ids := by
    rw [List.find?_eq_some_iff_append]
    grind
  rw [← refused, without]
  constructor
  · intro answered
    split at answered
    · rename_i id first
      cases answered
      exact ⟨first, rfl⟩
    · cases answered
  · rintro ⟨first, available⟩
    rw [first]
    cases unknown
    cases available
    rfl

end Catalogue

namespace Checker

/-- All findings of a rule are kept by their name, or none is. -/
theorem filter_ruleFindings (checker : Checker) (text : Text) (keep : String → Bool) (rule : Rule) :
    (checker.ruleFindings text rule).filter (fun finding => keep finding.rule) =
      if keep rule.id then checker.ruleFindings text rule else [] := by
  have named : ∀ finding ∈ checker.ruleFindings text rule, keep finding.rule = keep rule.id := by
    intro finding member
    rw [rule_of_mem_ruleFindings member]
  rw [List.filter_congr named]
  cases keep rule.id with
  | true => exact List.filter_true _
  | false => exact List.filter_false _

/-- Choosing rules by name is choosing among their findings. -/
theorem flatMap_ruleFindings_filter (checker : Checker) (text : Text) (keep : String → Bool)
    (rules : List Rule) :
    (rules.filter fun rule => keep rule.id).flatMap (checker.ruleFindings text) =
      (rules.flatMap (checker.ruleFindings text)).filter fun finding => keep finding.rule := by
  induction rules with
  | nil => rfl
  | cons rule rest ih =>
    rw [List.flatMap_cons, List.filter_append, ← ih, filter_ruleFindings,
      List.filter_cons]
    cases keep rule.id with
    | true => rfl
    | false => rfl

/-- With any rules, parser and known names. Leaving out rules is refused exactly when some
name is the name of no rule; the answer gives the first such name and the names of all
rules. Otherwise the findings are those of all rules, in their order, less those of the
rules that are named. The finding of the parser comes first as before; if it does not go by
one of the names either, all findings are chosen by their names alone. -/
theorem inspect_without (checker : Checker) (ids : List String) (text : Text) :
    ((∃ unknown, checker.catalogue.without ids = .error unknown) ↔
        ∃ id ∈ ids, id ∉ checker.catalogue.ids) ∧
      (∀ unknown, checker.catalogue.without ids = .error unknown →
        (∃ known rest, ids = known ++ unknown.id :: rest ∧
          (∀ id ∈ known, id ∈ checker.catalogue.ids) ∧ unknown.id ∉ checker.catalogue.ids) ∧
        unknown.available = checker.catalogue.ids) ∧
      ∀ reduced, checker.catalogue.without ids = .ok reduced →
        { checker with catalogue := reduced }.inspect text =
            checker.parserFindings text ++
              (checker.catalogue.rules.flatMap (checker.ruleFindings text)).filter
                (fun finding => !ids.contains finding.rule) ∧
          ((∀ finding ∈ checker.parserFindings text, finding.rule ∉ ids) →
            { checker with catalogue := reduced }.inspect text =
              (checker.inspect text).filter (fun finding => !ids.contains finding.rule)) := by
  refine ⟨?_, ?_, ?_⟩
  · constructor
    · rintro ⟨unknown, refused⟩
      obtain ⟨⟨known, rest, split, -, absent⟩, -⟩ := Catalogue.without_eq_error_iff.mp refused
      exact ⟨unknown.id, by simp [split], absent⟩
    · rintro ⟨id, named, absent⟩
      cases answered : checker.catalogue.without ids with
      | error unknown => exact ⟨unknown, rfl⟩
      | ok reduced => exact absurd ((Catalogue.without_eq_ok_iff.mp answered).1 id named) absent
  · intro unknown
    exact Catalogue.without_eq_error_iff.mp
  · intro reduced answered
    have rules := (Catalogue.without_eq_ok_iff.mp answered).2
    have findings : { checker with catalogue := reduced }.inspect text =
        checker.parserFindings text ++
          (checker.catalogue.rules.flatMap (checker.ruleFindings text)).filter
            (fun finding => !ids.contains finding.rule) := by
      rw [← checker.flatMap_ruleFindings_filter text fun id => !ids.contains id, ← rules]
      rfl
    refine ⟨findings, ?_⟩
    intro unnamed
    have parser : (checker.parserFindings text).filter (fun finding => !ids.contains finding.rule) =
        checker.parserFindings text := by
      apply List.filter_eq_self.mpr
      simpa using unnamed
    rw [findings, inspect, List.filter_append, parser]

/-- A rule is named twice and left out, the check of another rule fails, and the parser
rejects the text. -/
theorem inspect_without_misspelling :
    let failing : Rule := { Spelling.elementLookup with confirm := some fun _ => Check.need none }
    let checker : Checker :=
      ⟨⟨[Spelling.documentName, failing, Spelling.functionKeyword]⟩,
        fun _ => .rejected ⟨"unexpected token", none⟩, .none⟩
    let ids := ["document-typo", "document-typo"]
    let reduced : Catalogue := ⟨[failing, Spelling.functionKeyword]⟩
    let text := "docuemnt funtion getElementByID".toList
    checker.catalogue.without ids = .ok reduced ∧
      (∀ finding ∈ checker.parserFindings text, finding.rule ∉ ids) ∧
      { checker with catalogue := reduced }.inspect text =
        (checker.inspect text).filter (fun finding => !ids.contains finding.rule) ∧
      (checker.inspect text).length = 3 := by
  intro failing checker ids reduced text
  have answered : checker.catalogue.without ids = .ok reduced :=
    Catalogue.without_eq_ok_iff.mpr ⟨by decide, by rfl⟩
  have unnamed : ∀ finding ∈ checker.parserFindings text, finding.rule ∉ ids := by
    intro finding member
    obtain rfl := List.mem_singleton.mp member
    decide
  exact ⟨answered, unnamed, ((inspect_without checker ids text).2.2 reduced answered).2 unnamed,
    by decide +kernel⟩

/-- The finding of the parser goes by a fixed name, and a rule of one's own may have the
same one. To leave out that rule does not leave out the finding, which belongs to no rule,
while a choice among all findings by their names drops it. -/
theorem inspect_without_keeps_syntax_error :
    let own : Rule := { Spelling.documentName with id := "syntax-error" }
    let checker : Checker :=
      ⟨⟨[own]⟩, fun _ => .rejected ⟨"unexpected token", none⟩, .none⟩
    let ids := ["syntax-error"]
    let reduced : Catalogue := ⟨[]⟩
    let text := "x".toList
    checker.catalogue.ids.Nodup ∧
      checker.catalogue.without ids = .ok reduced ∧
      ({ checker with catalogue := reduced }.inspect text).map Finding.rule = ["syntax-error"] ∧
      (checker.inspect text).filter (fun finding => !ids.contains finding.rule) = [] := by
  intro own checker ids reduced text
  have answered : checker.catalogue.without ids = .ok reduced :=
    Catalogue.without_eq_ok_iff.mpr ⟨by decide, by rfl⟩
  refine ⟨by decide, answered, by decide, ?_⟩
  have found : (checker.inspect text).map Finding.rule = ["syntax-error"] := by decide +kernel
  rw [List.filter_eq_nil_iff]
  intro finding member
  have named := List.mem_map_of_mem (f := Finding.rule) member
  rw [found, List.mem_singleton] at named
  rw [named]
  decide

end Checker

end ScriptCheck
