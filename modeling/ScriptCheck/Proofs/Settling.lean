import Mathlib.Data.List.Shortlex
import Mathlib.Logic.Function.Iterate
import Mathlib.Logic.Relation
import ScriptCheck.Proofs.Mending

/-!
# Mending comes to an end

Mending a text can leave something to mend: findings that overlapped, a body that can be
wrapped now that a call in it is closed, a semicolon missing behind a closed call. The
rules feed each other, and a remedy on one line can change how all later lines are read,
since it can open or close a literal there. Still, mending its own outcome again and
again comes to a text on which nothing is mended.

The lines of a text weigh what is still to mend on them. Every remedy makes its line
lighter and leaves the lines above alone. It keeps the number of lines, so the weights
of the lines, compared from the top, go down with every remedy that is applied. No order
among the rules is needed, nor which of several overlapping findings is taken.
-/

namespace ScriptCheck

open Line Phrase Repair

namespace Line

/-- The weights of the lines of a text that goes on with the given front of a line. -/
def weightsFrom (mode : Mode) (front : Text) : Text → List Nat
  | [] => [weight mode front]
  | c :: rest =>
    if c = '\n' then weight mode front :: weightsFrom (mode.after (front ++ ['\n'])) [] rest
    else weightsFrom mode (front ++ [c]) rest

/-- The weights of the lines of a text, from the top. -/
def weights (text : Text) : List Nat := weightsFrom .code [] text

/-- There are as many weights as lines. -/
theorem length_weightsFrom (mode : Mode) (front text : Text) :
    (weightsFrom mode front text).length = text.count '\n' + 1 := by
  induction text generalizing mode front with
  | nil => rfl
  | cons c rest ih =>
    rw [weightsFrom]
    split
    · rename_i newline
      simp [ih, newline]
    · rename_i other
      simp [ih, other]

/-- Text without a newline goes on with the line. -/
theorem weightsFrom_append (mode : Mode) (front : Text) {text : Text}
    (oneLine : ∀ c ∈ text, c ≠ '\n') (rest : Text) :
    weightsFrom mode front (text ++ rest) = weightsFrom mode (front ++ text) rest := by
  induction text generalizing front with
  | nil => simp
  | cons c text ih =>
    rw [List.cons_append, weightsFrom, if_neg (oneLine c (by simp)),
      ih _ fun d listed => oneLine d (by simp [listed])]
    simp

/-- The lines above do not depend on what follows them, nor do their weights. -/
theorem weightsFrom_above (mode : Mode) (front above : Text) (ends : above.getLast? = some '\n') :
    ∃ upper, ∀ rest, weightsFrom mode front (above ++ rest) =
      upper ++ weightsFrom (mode.after (front ++ above)) [] rest := by
  induction above generalizing mode front with
  | nil => cases ends
  | cons c above ih =>
    by_cases last : above = []
    · subst last
      obtain rfl : c = '\n' := by simpa using ends
      exact ⟨[weight mode front], fun rest => rfl⟩
    · have ends' : above.getLast? = some '\n' := by
        rwa [List.getLast?_cons_of_ne_nil last] at ends
      by_cases newline : c = '\n'
      · subst newline
        obtain ⟨upper, each⟩ := ih (mode.after (front ++ ['\n'])) [] ends'
        refine ⟨weight mode front :: upper, fun rest => ?_⟩
        rw [List.cons_append, weightsFrom, if_pos rfl, each, List.nil_append, ← Mode.after_append]
        simp
      · obtain ⟨upper, each⟩ := ih mode (front ++ [c]) ends'
        refine ⟨upper, fun rest => ?_⟩
        rw [List.cons_append, weightsFrom, if_neg newline, each]
        simp

/-- The weights from a line on: its own, and those below. -/
theorem weightsFrom_eq_cons (mode : Mode) {line below : Text} (oneLine : ∀ c ∈ line, c ≠ '\n')
    (ends : ∀ c ∈ below.head?, c = '\n') :
    ∃ lower, weightsFrom mode [] (line ++ below) = weight mode line :: lower ∧
      lower.length = below.count '\n' := by
  rw [weightsFrom_append mode [] oneLine, List.nil_append]
  cases below with
  | nil => exact ⟨[], rfl, rfl⟩
  | cons c below =>
    obtain rfl : c = '\n' := ends c rfl
    exact ⟨_, rfl, by rw [length_weightsFrom, List.count_cons_self]⟩

end Line

/-- A text whose lines, compared from the top, weigh less than those of another. -/
def Lighter (text other : Text) : Prop := List.Shortlex (· < ·) (weights text) (weights other)

/-- There is no endless chain of lighter and lighter texts. -/
theorem wellFounded_lighter : WellFounded Lighter :=
  InvImage.wf weights (List.Shortlex.wf Nat.lt_wfRel.wf)

/-- A lighter line makes a lighter text, whatever becomes of the lines below, since texts are
compared from the top. -/
theorem lighter_of_weight {left front : Text} {mode : Mode} (line : Front left mode front)
    {old new tail below : Text} (front_line : ∀ c ∈ front, c ≠ '\n')
    (edit_line : ∀ c ∈ old ++ new, c ≠ '\n') (tail_line : ∀ c ∈ tail, c ≠ '\n')
    (ends : ∀ c ∈ below.head?, c = '\n')
    (lower : weight mode (front ++ (new ++ tail)) < weight mode (front ++ (old ++ tail))) :
    Lighter (left ++ new ++ (tail ++ below)) (left ++ old ++ (tail ++ below)) := by
  obtain ⟨above, rfl, rfl, newline⟩ := line
  obtain ⟨upper, each⟩ : ∃ upper, ∀ rest, weights (above ++ rest) =
      upper ++ weightsFrom (Mode.code.after above) [] rest := by
    cases ends : above.getLast? with
    | none =>
      rw [List.getLast?_eq_none_iff] at ends
      exact ⟨[], fun rest => by rw [ends]; rfl⟩
    | some c =>
      obtain rfl := newline c ends
      exact weightsFrom_above .code [] above ends
  have regroup (middle : Text) : above ++ front ++ middle ++ (tail ++ below) =
      above ++ (front ++ (middle ++ tail) ++ below) := by simp
  have oneLine (middle : Text) (middle_line : ∀ c ∈ middle, c ≠ '\n') :
      ∀ c ∈ front ++ (middle ++ tail), c ≠ '\n' := by
    simp only [List.forall_mem_append]
    exact ⟨front_line, middle_line, tail_line⟩
  rw [List.forall_mem_append] at edit_line
  obtain ⟨lowerOld, oldWeights, oldLength⟩ :=
    weightsFrom_eq_cons (Mode.code.after above) (oneLine old edit_line.1) ends
  obtain ⟨lowerNew, newWeights, newLength⟩ :=
    weightsFrom_eq_cons (Mode.code.after above) (oneLine new edit_line.2) ends
  rw [Lighter, regroup, regroup, each, each, oldWeights, newWeights]
  exact .append_left (.of_lex (by simp [oldLength, newLength]) (.rel lower)) upper

/-! ### The remedies of one run -/

/-- The findings still to be handled in the course of a run all end within `front`. Behind
it the original goes on with `rest`, and the text as edited so far with `rest'`. At the
end of a line no more than a semicolon has been put in, and where one has been put in, no
finding that is left puts another one. -/
structure Pending (front rest rest' : Text) (findings : List Finding) : Prop where
  inside : ∀ finding ∈ findings, finding.stop ≤ front.width
  following : Tail rest (lineOf rest')
  once : (∀ c ∈ rest.head?, c = '\n') → lineOf rest' = [] ∨
    (∃ c, front.getLast? = some c ∧ among " \t\r\n" c = false) ∧
      ∀ finding ∈ findings, finding.rule = Semicolon.missing.id → finding.offset ≠ front.width

/-- At the start of a run the text is the original. -/
theorem Pending.start {text : Text} {findings : List Finding}
    (inside : ∀ finding ∈ findings, finding.stop ≤ text.width) : Pending text [] [] findings :=
  ⟨inside, .of_line [], fun _ => .inl rfl⟩

/-- Where the text goes on as the original does. -/
theorem Line.Tail.append_left {rest rest' : Text} (following : Tail rest (lineOf rest'))
    (gap : Text) : Tail (gap ++ rest) (lineOf (gap ++ rest')) := by
  cases gap with
  | nil => exact following
  | cons c gap =>
    obtain ⟨breaks, ending⟩ := Tail.of_line (c :: (gap ++ rest'))
    refine ⟨?_, ?_⟩
    · intro breaks'
      exact breaks (breaks_cons.mpr (breaks_cons.mp breaks'))
    · intro ending'
      exact ending ending'

section Step

variable {finding : Finding} {findings : List Finding} {original left gap rest rest' new : Text}

/-- Where a semicolon goes in, nothing more is on the line. A second semicolon there would
be the same finding. -/
theorem Pending.lineOf_eq_nil
    (pending : Pending (left ++ finding.matched ++ gap) rest rest' (finding :: findings))
    (offset : left.width = finding.offset) (rule : finding.rule = Semicolon.missing.id)
    (insertion : Insertion left finding.matched (gap ++ rest) new) :
    lineOf (gap ++ rest') = [] := by
  cases gap with
  | cons c gap =>
    obtain rfl : c = '\n' := insertion.ending c rfl
    rfl
  | nil =>
    rcases pending.once insertion.ending with none | ⟨⟨c, last, solid⟩, used⟩
    · exact none
    · rw [List.append_nil] at last used
      have empty : finding.matched = [] := by
        rcases List.eq_nil_or_concat finding.matched with empty | ⟨init, d, concat⟩
        · exact empty
        · obtain rfl : d = c := by simpa [concat] using last
          have blank : among " \t\r\n" d = true :=
            of_among (among " \t\r\n") (insertion.blank d (by simp [concat])) (by decide)
          rw [blank] at solid
          cases solid
      exact absurd (by rw [empty, List.append_nil, offset]) (used finding (by simp) rule)

/-- A remedy makes the text lighter when it makes its line lighter. -/
theorem Finding.Edits.lighter (edits : finding.Edits original left (gap ++ rest) new)
    (pending : Pending (left ++ finding.matched ++ gap) rest rest' (finding :: findings)) :
    Lighter (left ++ new ++ (gap ++ rest')) (left ++ finding.matched ++ (gap ++ rest')) := by
  obtain ⟨mode, front, line, front_line⟩ := Front.exists_front left
  obtain ⟨below, split, rest_line, ends⟩ := exists_below (gap ++ rest')
  rw [split]
  rcases edits.edit with ⟨rule, insertion⟩ | rewrite
  · refine lighter_of_weight line front_line insertion.oneLine rest_line ends ?_
    rw [pending.lineOf_eq_nil edits.offset rule insertion, List.append_nil, List.append_nil]
    exact insertion.lowers line
  · exact lighter_of_weight line front_line rewrite.oneLine rest_line ends
      (rewrite.lowers line (pending.following.append_left gap))

/-- After a remedy the other findings are pending in front of it. They stop before it, and are not
of its rule if they start there. -/
theorem Pending.next
    (pending : Pending (left ++ finding.matched ++ gap) rest rest' (finding :: findings))
    (edits : finding.Edits original left (gap ++ rest) new)
    (ordered : ∀ other ∈ findings, other.stop ≤ finding.offset)
    (apart : ∀ other ∈ findings, other.rule = finding.rule → other.offset ≠ finding.offset) :
    Pending left (finding.matched ++ (gap ++ rest)) (new ++ (gap ++ rest')) findings := by
  have inside : ∀ other ∈ findings, other.stop ≤ left.width := by
    intro other member
    rw [edits.offset]
    exact ordered other member
  rcases edits.edit with ⟨rule, insertion⟩ | rewrite
  · refine ⟨inside, ⟨?_, ?_⟩, ?_⟩
    · intro _
      rw [insertion.new_eq]
      exact breaks_cons.mpr (by decide)
    · intro newline
      have empty : finding.matched = [] := by
        cases matched : finding.matched with
        | nil => rfl
        | cons c others =>
          obtain rfl : c = '\n' := newline c (by simp [matched])
          cases insertion.blank _ (by rw [matched]; exact List.mem_cons_self)
      have alone := pending.lineOf_eq_nil edits.offset rule insertion
      rw [insertion.new_eq, empty, List.cons_append, lineOf, List.takeWhile_cons_of_pos (by decide)]
      exact .inr (congrArg (List.cons ';') alone)
    · intro _
      obtain ⟨c, last, solid, -⟩ := insertion.last
      refine .inr ⟨⟨c, last, solid⟩, ?_⟩
      intro other member same
      rw [edits.offset]
      exact apart other member (same.trans rule.symm)
  · obtain ⟨c, head, alpha⟩ := rewrite.letter
    have first : (finding.matched ++ (gap ++ rest)).head? = some c := by
      rw [List.head?_append, head]
      rfl
    have notNewline : ¬∀ d ∈ (finding.matched ++ (gap ++ rest)).head?, d = '\n' := by
      intro newline
      obtain rfl := newline c first
      cases alpha
    refine ⟨inside, ⟨?_, ?_⟩, ?_⟩
    · intro breaks
      rw [breaks c first] at alpha
      cases alpha
    · exact fun newline => absurd newline notNewline
    · exact fun newline => absurd newline notNewline

end Step

/-- Every remedy of a run makes the text lighter. The induction is on the findings still
to be handled, the last of the text first. -/
theorem lighter_foldl_applyOne {original : Text} (findings : List Finding)
    (edits : ∀ finding ∈ findings, ∃ left right new, finding.Edits original left right new)
    (ordered : BackToFront findings)
    (apart : findings.Pairwise fun finding other =>
      other.rule = finding.rule → other.offset ≠ finding.offset)
    {front rest rest' : Text} (pending : Pending front rest rest' findings)
    (whole : original = front ++ rest) (report : Report) (current : report.text = front ++ rest') :
    Relation.ReflTransGen Lighter (findings.foldl applyOne report).text report.text ∧
      (findings ≠ [] →
        Relation.TransGen Lighter (findings.foldl applyOne report).text report.text) := by
  induction findings generalizing front rest rest' report with
  | nil => exact ⟨.refl, fun present => absurd rfl present⟩
  | cons finding findings ih =>
    obtain ⟨left, right, new, edit⟩ := edits finding (by simp)
    obtain ⟨before, ordered'⟩ := List.pairwise_cons.mp ordered
    obtain ⟨other, apart'⟩ := List.pairwise_cons.mp apart
    obtain ⟨gap, rfl, rfl⟩ :
        ∃ gap, front = left ++ finding.matched ++ gap ∧ right = gap ++ rest := by
      refine Text.exists_gap_of_width_le (edit.whole.symm.trans whole) ?_
      have stop := pending.inside finding (by simp)
      rwa [Finding.stop, ← edit.offset, ← edit.length, ← Text.width_append] at stop
    have current' : report.text = left ++ finding.matched ++ (gap ++ rest') := by
      simpa using current
    have applied : (applyOne report finding).text = left ++ (new ++ (gap ++ rest')) := by
      rw [applyOne_of_pieces report finding left _ current' edit.offset edit.length, edit.replaced]
      simp [edit.ne]
    have lighter : Lighter (applyOne report finding).text report.text := by
      rw [applied, current', ← List.append_assoc]
      exact edit.lighter pending
    obtain ⟨further, -⟩ :=
      ih (fun f member => edits f (by simp [member])) ordered' apart'
        (pending.next edit before other) (by simpa using edit.whole) (applyOne report finding)
        applied
    exact ⟨further.tail lighter, fun _ => .tail' further lighter⟩

namespace Checker

variable {keep : Rule → Bool} {parse : Text → Verdict} {globals : Globals}

/-- Two findings with remedies differ in their rule or in where they start, as no two rules share a
name. -/
theorem pairwise_fixable [Engine] (text : Text) :
    (((keeping keep parse globals).inspect text).filter Finding.isFixable).Pairwise
      fun finding other => other.rule = finding.rule → other.offset ≠ finding.offset := by
  rw [filter_isFixable_inspect]
  refine List.pairwise_flatMap.mpr ⟨?_, ?_⟩
  · intro rule _
    refine List.Pairwise.filter _ ((pairwise_ruleFindings _ text rule).imp ?_)
    rintro finding other ⟨further, -⟩ -
    exact (Nat.ne_of_lt further).symm
  · have distinct : Catalogue.builtin.rules.Pairwise fun rule other => rule.id ≠ other.id :=
      List.pairwise_map.mp nodup_ids_builtin
    refine (distinct.filter keep).imp ?_
    intro rule other apart finding member finding' member' same
    rw [rule_of_mem_ruleFindings (List.mem_of_mem_filter member),
      rule_of_mem_ruleFindings (List.mem_of_mem_filter member')] at same
    exact absurd same.symm apart

/-- A pass that mends something makes the text lighter. The induction is on the findings, the last
one of the text first. -/
theorem lighter_mend [Engine] (text : Text)
    (mends : (keeping keep parse globals).accepted text ≠ []) :
    Relation.TransGen Lighter ((keeping keep parse globals).mend text).text text := by
  have sorted : (((keeping keep parse globals).accepted text).mergeSort comesFirst).Perm
      ((keeping keep parse globals).accepted text) := List.mergeSort_perm _ _
  have edits : ∀ finding ∈ ((keeping keep parse globals).accepted text).mergeSort comesFirst,
      ∃ left right new, finding.Edits text left right new := fun finding member =>
    exists_edits_of_mem_accepted (sorted.mem_iff.mp member)
  have apart : (((keeping keep parse globals).accepted text).mergeSort comesFirst).Pairwise
      fun finding other => other.rule = finding.rule → other.offset ≠ finding.offset := by
    refine (sorted.pairwise_iff fun apart same => (apart same.symm).symm).mpr ?_
    exact (pairwise_fixable text).sublist (accept_sublist [] _)
  have inside : ∀ finding ∈ ((keeping keep parse globals).accepted text).mergeSort comesFirst,
      finding.stop ≤ text.width := by
    intro finding member
    obtain ⟨left, right, new, edit⟩ := edits finding member
    rw [Finding.stop, ← edit.offset, ← edit.length, edit.whole, Text.width_append,
      Text.width_append]
    omega
  have present : ((keeping keep parse globals).accepted text).mergeSort comesFirst ≠ [] := by
    intro empty
    rw [empty] at sorted
    exact mends sorted.symm.eq_nil
  exact (lighter_foldl_applyOne _ edits (backToFront_mergeSort _) apart (.start inside) (by simp)
    ⟨text, 0, _, 0⟩ (by simp)).2 present

/-- A pass that mends something gives another text: no sequence of remedies comes back to
where it started. -/
theorem text_mend_ne [Engine] (text : Text)
    (mends : (keeping keep parse globals).accepted text ≠ []) :
    ((keeping keep parse globals).mend text).text ≠ text := by
  intro same
  have lighter := lighter_mend text mends
  rw [same] at lighter
  exact wellFounded_lighter.transGen.irrefl.irrefl text lighter

/-- With any of the built-in rules left out, any parser and any known names, mending the
outcome of mending comes after finitely many passes to a text on which nothing is
mended. -/
theorem mend_settles [Engine] (keep : Rule → Bool) (parse : Text → Verdict) (globals : Globals)
    (text : Text) :
    ∃ passes, ((keeping keep parse globals).mend
      ((fun text => ((keeping keep parse globals).mend text).text)^[passes] text)).applied = 0 := by
  induction text using wellFounded_lighter.transGen.induction with
  | _ text ih =>
    by_cases settled : (keeping keep parse globals).accepted text = []
    · refine ⟨0, ?_⟩
      rw [Function.iterate_zero, id, applied_mend, settled]
      rfl
    · obtain ⟨passes, ends⟩ := ih _ (lighter_mend text settled)
      refine ⟨passes + 1, ?_⟩
      rw [Function.iterate_succ_apply]
      exact ends

end Checker

end ScriptCheck
