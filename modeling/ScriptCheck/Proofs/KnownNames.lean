import Mathlib.Data.List.Nodup
import ScriptCheck.Proofs.Decision
import ScriptCheck.Proofs.Mending

/-!
# Which names are known

Only the rule for undefined functions asks which names are known from outside a text. It
also keeps, during one search, whether the text binds a name, so that names called often
are looked for once. What is kept depends on the calls met so far, and with it on the
known names; the answers do not. Each call is judged as if the text were searched for its
name anew.

So more known names take findings away and change nothing else: those for calls of the
added names go, and all others stay in their order.
-/

namespace ScriptCheck

/-! ### Further names -/

namespace Globals

/-- With one more name, the names known are the old ones and that one. -/
theorem knows_insert (globals : Globals) (name other : Text) :
    (globals.insert name).knows other = (globals.knows other || other == name) := by
  rw [insert]
  split
  · rename_i present
    cases same : other == name with
    | false => rw [Bool.or_false]
    | true =>
      obtain rfl : other = name := by simpa using same
      rw [present, Bool.or_true]
  · rw [knows, knows, Bool.eq_iff_iff]
    simp

/-- An extension adds its names to those known. -/
theorem knows_extend (globals : Globals) (names : List Text) (name : Text) :
    (globals.extend names).knows name = (globals.knows name || names.contains name) := by
  induction names generalizing globals with
  | nil => simp [extend]
  | cons first rest ih =>
    have step : globals.extend (first :: rest) = (globals.insert first).extend rest := rfl
    rw [step, ih, knows_insert, List.contains_cons, Bool.or_assoc]

end Globals

/-- Whether a finding is for the call of one of the names. -/
def Finding.isCallOf [Engine] (names : List Text) (finding : Finding) : Bool :=
  finding.rule == Call.undefined.id && (Block.groupText? finding.groups 1).any names.contains

namespace Call

/-- The calls reported are those shown to be undefined. -/
theorem findings?_undefined [Engine] (known : Text → Bool) (text : Text) :
    undefined.findings? known text =
      some (((call.allMatches text).filter fun found =>
        isReported ⟨text, text.layout, known, found⟩).map (undefined.finding text)) := by
  have each : ∀ found ∈ call.allMatches text,
      (isUndefined ⟨text, text.layout, known, found⟩).Decides (isDeclared text)
        (isReported ⟨text, text.layout, known, found⟩) := by
    intro found member
    obtain ⟨left, right, captures, occurs⟩ := Pattern.occurs_of_mem_allMatches member
    exact decides_isUndefined occurs
  exact Rule.findings?_of_decides rfl each

/-- A call of a known name is not reported; about the others a known name says nothing. -/
theorem isReported_or [Engine] (text : Text) (layout : Layout) (known further : Text → Bool)
    (found : Match) :
    isReported ⟨text, layout, fun name => known name || further name, found⟩ =
      (isReported ⟨text, layout, known, found⟩ &&
        !(found.group? 1).any fun piece => further piece.body) := by
  rw [isReported, isReported]
  cases found.group? 1 with
  | none => rfl
  | some piece =>
    simp only [Option.any_some, opensBlock]
    cases known piece.body <;> cases further piece.body <;> simp

/-- The findings for undefined functions, with further names known, are those before without the
calls of these names. -/
theorem findings?_extend [Engine] (globals : Globals) (names : List Text) (text : Text) :
    undefined.findings? (globals.extend names).knows text =
      (undefined.findings? globals.knows text).map
        (List.filter fun finding => !finding.isCallOf names) := by
  have extended : (globals.extend names).knows =
      fun name => globals.knows name || names.contains name := by
    funext name
    exact globals.knows_extend names name
  rw [extended, findings?_undefined, findings?_undefined, Option.map_some, List.filter_map,
    List.filter_filter]
  congr 3
  funext found
  have group : Block.groupText? (undefined.finding text found).groups 1 =
      (found.group? 1).map Piece.body := Block.groupText?_texts found Nat.one_pos
  rw [isReported_or, Bool.and_comm]
  congr 2
  show _ = Finding.isCallOf names (undefined.finding text found)
  rw [Finding.isCallOf, group, Option.any_map]
  rfl

end Call

namespace Rule

/-- No other rule asks which names are known. -/
theorem eq_undefined_or [Engine] {rule : Rule} (builtin : rule ∈ Catalogue.builtin.rules) :
    rule = Call.undefined ∨ rule.id ≠ Call.undefined.id ∧ ∀ known known' text,
      rule.findings? known text = rule.findings? known' text := by
  by_cases same : rule.id = Call.undefined.id
  · have listed : Call.undefined ∈ Catalogue.builtin.rules := by simp [Catalogue.builtin]
    exact .inl (List.inj_on_of_nodup_map Checker.nodup_ids_builtin builtin listed same)
  · refine .inr ⟨same, ?_⟩
    simp only [Catalogue.builtin, List.mem_cons, List.not_mem_nil, or_false] at builtin
    rcases builtin with
      rfl | rfl | rfl | rfl | rfl | rfl | rfl | rfl | rfl | rfl | rfl | rfl | rfl
    case inr.inr.inr.inr.inr.inr.inr.inr.inr.inr.inr.inr => exact absurd rfl same
    all_goals exact fun _ _ _ => rfl

/-- Further known names take the findings for their calls from a built-in rule, and leave all
others. Only one rule has such findings. -/
theorem findings?_extend [Engine] {rule : Rule} (builtin : rule ∈ Catalogue.builtin.rules)
    (globals : Globals) (names : List Text) (text : Text) :
    rule.findings? (globals.extend names).knows text =
      (rule.findings? globals.knows text).map
        (List.filter fun finding => !finding.isCallOf names) := by
  rcases eq_undefined_or builtin with rfl | ⟨other, same⟩
  · exact Call.findings?_extend globals names text
  · rw [same _ globals.knows]
    cases searched : rule.findings? globals.knows text with
    | none => rfl
    | some findings =>
      rw [Option.map_some, List.filter_eq_self.mpr]
      intro finding member
      obtain ⟨found, -, -, -, rfl, -⟩ := exists_match_of_mem_findings? searched member
      have other' : ((rule.finding text found).rule == Call.undefined.id) = false := by
        simpa [finding] using other
      rw [Finding.isCallOf, other']
      rfl

end Rule

namespace Checker

/-- With any of the built-in rules left out and any parser, names added to the known ones
take away the findings for calls of these names and leave all others in their order. A
call is reported just when it is undefined as far as a search of its own shows, whatever
the calls before it have left behind. -/
theorem inspect_extend [Engine] (keep : Rule → Bool) (parse : Text → Verdict) (globals : Globals)
    (names : List Text) (text : Text) :
    (keeping keep parse (globals.extend names)).inspect text =
        ((keeping keep parse globals).inspect text).filter
          (fun finding => !finding.isCallOf names) ∧
      Call.undefined.findings? globals.knows text =
        some (((Call.call.allMatches text).filter fun found =>
          Call.isReported ⟨text, text.layout, globals.knows, found⟩).map
            (Call.undefined.finding text)) := by
  refine ⟨?_, Call.findings?_undefined globals.knows text⟩
  have parser : ((keeping keep parse globals).parserFindings text).filter
      (fun finding => !finding.isCallOf names) =
        (keeping keep parse globals).parserFindings text := by
    rw [parserFindings]
    split <;> rfl
  have rules : ∀ rule ∈ Catalogue.builtin.rules.filter keep,
      (keeping keep parse (globals.extend names)).ruleFindings text rule =
        ((keeping keep parse globals).ruleFindings text rule).filter
          (fun finding => !finding.isCallOf names) := by
    intro rule kept
    have extended := Rule.findings?_extend (List.mem_of_mem_filter kept) globals names text
    rw [ruleFindings, ruleFindings]
    show (rule.findings? (globals.extend names).knows text).getD [] =
      ((rule.findings? globals.knows text).getD []).filter _
    rw [extended]
    cases rule.findings? globals.knows text <;> rfl
  rw [inspect, inspect, List.filter_append, parser, List.filter_flatMap]
  congr 1
  exact List.flatMap_congr rules

end Checker

end ScriptCheck
