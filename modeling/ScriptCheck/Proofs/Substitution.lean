import Mathlib.Data.List.Basic
import ScriptCheck.Proofs.Cut
import ScriptCheck.Repair

/-!
# Applying remedies is one simultaneous substitution

The remedies of a list of findings are applied one after another, each to the text the
earlier ones have left. The reference here never looks at an edited text. It walks the
original once, character by character: what is inserted or rewritten at an offset is
written out there, and a character stays unless some rewritten span covers it.

The two agree for every text and every list of findings, also when spans lie past the
end of the text or inside a character, when a match is not where its finding says, and
when remedies decline. The order of application carries the proof: of two accepted
findings the one applied later ends where the one applied earlier starts, or before.
-/

namespace ScriptCheck.Repair

/-- A new text for the `length` bytes at an offset. With no bytes to replace it is an
insertion. -/
structure Substitution where
  offset : Nat
  length : Nat
  new : Text
  deriving DecidableEq, Repr

namespace Substitution

/-- The byte offset at which the replaced bytes stop. -/
def stop (edit : Substitution) : Nat := edit.offset + edit.length

/-- Nothing is replaced, and the new text goes in at the offset. -/
def insertsAt (offset : Nat) (edit : Substitution) : Bool :=
  edit.length == 0 && edit.offset == offset

/-- At least one byte is replaced, the first of them at the offset. -/
def rewritesAt (offset : Nat) (edit : Substitution) : Bool :=
  edit.length != 0 && edit.offset == offset

/-- The byte at the offset is replaced. -/
def covers (offset : Nat) (edit : Substitution) : Bool :=
  edit.offset ≤ offset && offset < edit.stop

variable {offset : Nat} {edit : Substitution}

/-- An insertion at an offset replaces nothing and starts there. -/
theorem insertsAt_iff : edit.insertsAt offset = true ↔ edit.length = 0 ∧ edit.offset = offset := by
  simp [insertsAt]

/-- A rewrite at an offset replaces something and starts there. -/
theorem rewritesAt_iff :
    edit.rewritesAt offset = true ↔ edit.length ≠ 0 ∧ edit.offset = offset := by
  simp [rewritesAt]

/-- A substitution covers the offsets of the bytes that it replaces. -/
theorem covers_iff :
    edit.covers offset = true ↔ edit.offset ≤ offset ∧ offset < edit.offset + edit.length := by
  rw [covers, Bool.and_eq_true, decide_eq_true_eq, decide_eq_true_eq, stop]

end Substitution

open Substitution

/-- What the insertions at an offset put there. The one listed last comes first. -/
def inserted (edits : List Substitution) (offset : Nat) : Text :=
  (edits.filter (insertsAt offset)).reverse.flatMap Substitution.new

/-- What stands in place of the span that starts at an offset. -/
def rewritten (edits : List Substitution) (offset : Nat) : Text :=
  ((edits.filter (rewritesAt offset)).head?.map Substitution.new).getD []

/-- Carry out all substitutions at once on a text that starts at a byte offset. -/
def substituteFrom (edits : List Substitution) (offset : Nat) : Text → Text
  | [] => inserted edits offset
  | c :: rest =>
    inserted edits offset ++ rewritten edits offset ++
      (if edits.any (covers offset) then [] else [c]) ++
      substituteFrom edits (offset + c.utf8Size) rest

/-- Carry out all substitutions on a text at once. -/
def substitute (edits : List Substitution) (text : Text) : Text := substituteFrom edits 0 text

/-- The text has the match of a finding at the finding's span. -/
def stands (text : Text) (finding : Finding) : Bool :=
  text.slice? finding.offset finding.stop == some finding.matched

/-- The substitution a finding asks for: its match stands in the text, and its remedy
gives another text. -/
def substitution? (text : Text) (finding : Finding) : Option Substitution :=
  if stands text finding then
    finding.change?.map fun change => ⟨finding.offset, finding.length, change.new⟩
  else
    none

/-- The substitutions that findings ask for, in the order of the findings. -/
def substitutions (text : Text) (findings : List Finding) : List Substitution :=
  findings.filterMap (substitution? text)

/-- Whether a finding is passed over: its match does not stand, or its remedy declines. -/
def isStale (text : Text) (finding : Finding) : Bool :=
  !stands text finding || finding.replacement?.isNone

/-- Look at the next finding of the list: it is accepted unless its span conflicts with
that of a finding already accepted, and refused otherwise. -/
def consider : List Finding × Nat → Finding → List Finding × Nat
  | (accepted, refused), finding =>
    if accepted.any fun other => conflicts other finding then (accepted, refused + 1)
    else (accepted ++ [finding], refused)

/-- The report of the simultaneous substitution. -/
def simultaneous (text : Text) (findings : List Finding) : Report :=
  let (accepted, refused) := (findings.filter Finding.isFixable).foldl consider ([], 0)
  { text := substitute (substitutions text accepted) text
    applied := (substitutions text accepted).length
    skippedOverlap := refused
    skippedStale := accepted.countP (isStale text) }

/-! ### The walk over the original text -/

variable {edit : Substitution} {text : Text} {finding : Finding} {findings : List Finding}

/-- What inserts nothing at an offset may be left out there. -/
theorem inserted_cons_of_not {offset : Nat} (notInsertion : insertsAt offset edit = false)
    (others : List Substitution) : inserted (edit :: others) offset = inserted others offset := by
  rw [inserted, inserted, List.filter_cons_of_neg (by simp [notInsertion])]

/-- What rewrites nothing at an offset may be left out there. -/
theorem rewritten_cons_of_not {offset : Nat} (notStart : rewritesAt offset edit = false)
    (others : List Substitution) : rewritten (edit :: others) offset = rewritten others offset := by
  rw [rewritten, rewritten, List.filter_cons_of_neg (by simp [notStart])]

/-- Nothing is inserted where no substitution stops. -/
theorem inserted_eq_nil (edits : List Substitution) (offset : Nat)
    (elsewhere : ∀ edit ∈ edits, edit.stop ≠ offset) : inserted edits offset = [] := by
  have none : edits.filter (insertsAt offset) = [] := by
    simp only [List.filter_eq_nil_iff, insertsAt, Bool.and_eq_true, beq_iff_eq, not_and]
    intro edit member empty same
    exact elsewhere edit member (by simp [stop, empty, same])
  simp [inserted, none]

/-- Nothing is rewritten where every substitution has stopped. -/
theorem rewritten_eq_nil (edits : List Substitution) (offset : Nat)
    (stopped : ∀ edit ∈ edits, edit.stop ≤ offset) : rewritten edits offset = [] := by
  have none : edits.filter (rewritesAt offset) = [] := by
    simp only [List.filter_eq_nil_iff, rewritesAt, Bool.and_eq_true, bne_iff_ne, beq_iff_eq,
      not_and]
    intro edit member wide same
    have bound : edit.stop ≤ offset := stopped edit member
    simp only [stop] at bound
    omega
  simp [rewritten, none]

/-- A substitution that has stopped covers no later byte. -/
theorem covers_of_stop_le (edits : List Substitution) (offset : Nat)
    (stopped : ∀ edit ∈ edits, edit.stop ≤ offset) : edits.any (covers offset) = false := by
  simp only [List.any_eq_false, covers, Bool.and_eq_true, decide_eq_true_eq, not_and, Nat.not_lt]
  intro edit member _
  exact stopped edit member

/-- Behind all substitutions the text stays as it is. The induction is on the text. -/
theorem substituteFrom_of_stop_lt (edits : List Substitution) (offset : Nat) (text : Text)
    (stopped : ∀ edit ∈ edits, edit.stop < offset) : substituteFrom edits offset text = text := by
  induction text generalizing offset with
  | nil =>
    exact inserted_eq_nil edits offset fun edit member => Nat.ne_of_lt (stopped edit member)
  | cons c rest ih =>
    have reached : ∀ edit ∈ edits, edit.stop ≤ offset := fun edit member =>
      Nat.le_of_lt (stopped edit member)
    have later : ∀ edit ∈ edits, edit.stop < offset + c.utf8Size := fun edit member =>
      Nat.lt_add_right _ (stopped edit member)
    rw [substituteFrom,
      inserted_eq_nil edits offset fun edit member => Nat.ne_of_lt (stopped edit member),
      rewritten_eq_nil edits offset reached, covers_of_stop_le edits offset reached,
      ih _ later]
    rfl

/-- Where the last substitution stops, only insertions are left. -/
theorem substituteFrom_of_stop_le (edits : List Substitution) (offset : Nat) (text : Text)
    (stopped : ∀ edit ∈ edits, edit.stop ≤ offset) :
    substituteFrom edits offset text = inserted edits offset ++ text := by
  cases text with
  | nil => simp [substituteFrom]
  | cons c rest =>
    have later : ∀ edit ∈ edits, edit.stop < offset + c.utf8Size := fun edit member =>
      Nat.lt_of_le_of_lt (stopped edit member) (Nat.lt_add_of_pos_right c.utf8Size_pos)
    rw [substituteFrom, rewritten_eq_nil edits offset stopped,
      covers_of_stop_le edits offset stopped,
      substituteFrom_of_stop_lt edits _ rest later]
    simp

/-- Without substitutions the text stays as it is. -/
theorem substitute_nil (text : Text) : substitute [] text = text := by
  simp [substitute, substituteFrom_of_stop_le, inserted]

/-- What follows the last substitution is kept. Insertions at the very end of the front
belong to the front. -/
theorem substituteFrom_append (edits : List Substitution) (offset : Nat) (front rest : Text)
    (stopped : ∀ edit ∈ edits, edit.stop ≤ offset + front.width) :
    substituteFrom edits offset (front ++ rest) = substituteFrom edits offset front ++ rest := by
  induction front generalizing offset with
  | nil =>
    rw [List.nil_append, substituteFrom_of_stop_le edits offset rest (by simpa using stopped)]
    rfl
  | cons c front ih =>
    have stopped' : ∀ edit ∈ edits, edit.stop ≤ offset + c.utf8Size + Text.width front := by
      intro edit member
      have bound : edit.stop ≤ offset + Text.width (c :: front) := stopped edit member
      rw [Text.width_cons] at bound
      omega
    rw [List.cons_append, substituteFrom, substituteFrom, ih _ stopped']
    simp only [List.append_assoc]

/-- The bytes of a rewritten span are dropped, up to the stop of the span. Earlier substitutions
have stopped before. -/
theorem substituteFrom_covered (edit : Substitution) (others : List Substitution) (offset : Nat)
    (middle right : Text) (entered : edit.offset < offset)
    (left : edit.stop = offset + middle.width)
    (stopped : ∀ other ∈ others, other.stop ≤ edit.offset) :
    substituteFrom (edit :: others) offset (middle ++ right) = right := by
  have elsewhere : ∀ other ∈ others, other.stop < offset := fun other member =>
    Nat.lt_of_le_of_lt (stopped other member) entered
  have wide : edit.length ≠ 0 := by
    simp only [stop] at left
    omega
  have none (offset : Nat) (elsewhere : ∀ other ∈ others, other.stop < offset) :
      inserted (edit :: others) offset = [] := by
    rw [inserted_cons_of_not (by simp [insertsAt, wide]) others]
    exact inserted_eq_nil others offset fun other member => Nat.ne_of_lt (elsewhere other member)
  induction middle generalizing offset with
  | nil =>
    have all : ∀ other ∈ edit :: others, other.stop ≤ offset := by
      intro other member
      rcases List.mem_cons.mp member with rfl | member
      · simpa using Nat.le_of_eq left
      · exact Nat.le_of_lt (elsewhere other member)
    rw [List.nil_append, substituteFrom_of_stop_le _ offset right all, none offset elsewhere,
      List.nil_append]
  | cons c middle ih =>
    have ahead : offset < edit.stop := by
      have positive : 0 < c.utf8Size := c.utf8Size_pos
      rw [left, Text.width_cons]
      omega
    have notStart : rewritesAt offset edit = false := by
      simp only [rewritesAt, Bool.and_eq_false_imp, bne_iff_ne, beq_eq_false_iff_ne]
      intro _
      omega
    have under : covers offset edit = true := by
      simp only [covers, Bool.and_eq_true, decide_eq_true_eq]
      omega
    have none' : rewritten (edit :: others) offset = [] := by
      rw [rewritten_cons_of_not notStart others]
      exact rewritten_eq_nil others offset fun other member => Nat.le_of_lt (elsewhere other member)
    have rest :
        substituteFrom (edit :: others) (offset + c.utf8Size) (middle ++ right) = right := by
      refine ih (offset + c.utf8Size) (Nat.lt_add_right _ entered) ?_
        fun other member => Nat.lt_add_right _ (elsewhere other member)
      rw [left, Text.width_cons, Nat.add_assoc]
    rw [List.cons_append, substituteFrom, none offset elsewhere, none', rest, List.any_cons, under]
    rfl

/-- The substitution with the greatest offset is carried out on its own, and all others
on the front before it. -/
theorem substituteFrom_cons (edit : Substitution) (others : List Substitution) (offset : Nat)
    (left middle right : Text) (start : edit.offset = offset + left.width)
    (length : edit.length = middle.width)
    (stopped : ∀ other ∈ others, other.stop ≤ edit.offset) :
    substituteFrom (edit :: others) offset (left ++ middle ++ right) =
      substituteFrom others offset left ++ edit.new ++ right := by
  induction left generalizing offset with
  | nil =>
    obtain rfl : edit.offset = offset := by simpa using start
    cases middle with
    | nil =>
      have empty : edit.length = 0 := by simpa using length
      have all : ∀ other ∈ edit :: others, other.stop ≤ edit.offset := by
        intro other member
        rcases List.mem_cons.mp member with rfl | member
        · simp [stop, empty]
        · exact stopped other member
      rw [List.nil_append, List.nil_append, substituteFrom_of_stop_le _ _ right all]
      simp [substituteFrom, inserted, insertsAt, empty]
    | cons c middle =>
      have positive : 0 < c.utf8Size := c.utf8Size_pos
      have wide : edit.length ≠ 0 := by
        rw [length, Text.width_cons]
        omega
      have ahead : edit.offset < edit.stop := by
        rw [stop]
        omega
      have under : covers edit.offset edit = true := by simp [covers, ahead]
      have rest : substituteFrom (edit :: others) (edit.offset + c.utf8Size) (middle ++ right) =
          right := by
        refine substituteFrom_covered edit others _ middle right (by omega) ?_ stopped
        rw [stop, length, Text.width_cons, Nat.add_assoc]
      have first : rewritten (edit :: others) edit.offset = edit.new := by
        simp [rewritten, rewritesAt, wide]
      have kept := inserted_cons_of_not
        (show insertsAt edit.offset edit = false by simp [insertsAt, wide]) others
      rw [List.nil_append, List.cons_append]
      simp [substituteFrom, rest, first, kept, under]
  | cons c left ih =>
    have positive : 0 < c.utf8Size := c.utf8Size_pos
    have ahead : offset < edit.offset := by
      rw [start, Text.width_cons]
      omega
    have elsewhere : edit.offset ≠ offset := Nat.ne_of_gt ahead
    have kept := inserted_cons_of_not
      (show insertsAt offset edit = false by simp [insertsAt, elsewhere]) others
    have kept' := rewritten_cons_of_not
      (show rewritesAt offset edit = false by simp [rewritesAt, elsewhere]) others
    have notYet : covers offset edit = false := by
      simp only [covers, Bool.and_eq_false_imp, decide_eq_true_eq, decide_eq_false_iff_not]
      omega
    rw [List.cons_append, List.cons_append, substituteFrom, substituteFrom, kept, kept',
      List.any_cons, notYet,
      ih (offset + c.utf8Size) (by rw [start, Text.width_cons]; omega)]
    simp only [Bool.false_or, List.append_assoc]

/-- The substitution with the greatest offset may go first. -/
theorem substitute_cons (edit : Substitution) (others : List Substitution)
    (left middle right : Text)
    (start : edit.offset = left.width) (length : edit.length = middle.width)
    (stopped : ∀ other ∈ others, other.stop ≤ edit.offset) :
    substitute (edit :: others) (left ++ middle ++ right) =
      substitute others (left ++ edit.new ++ right) := by
  have stopped' : ∀ other ∈ others, other.stop ≤ 0 + left.width := by
    simpa [← start] using stopped
  rw [substitute, substitute,
    substituteFrom_cons edit others 0 left middle right (by simp [start]) length stopped,
    List.append_assoc left, substituteFrom_append others 0 left _ stopped', List.append_assoc]

/-! ### One remedy after another -/

/-- A match that ends within a front stands whatever follows. -/
theorem stands_append (front rest : Text) (finding : Finding)
    (inside : finding.stop ≤ front.width) :
    stands (front ++ rest) finding = stands front finding := by
  rw [stands, stands, Text.slice?_append front rest _ _ inside]

/-- The pieces of a text around a match that stands in it. -/
theorem stands_iff (text : Text) (finding : Finding) :
    stands text finding = true ↔ ∃ left right, text = left ++ finding.matched ++ right ∧
      left.width = finding.offset ∧ finding.matched.width = finding.length := by
  simp only [stands, beq_iff_eq, Text.slice?_eq_some_iff, Finding.stop, Nat.add_left_cancel_iff]

/-- A finding whose match does not stand is counted as stale. -/
theorem applyOne_of_not_stands (report : Report) (finding : Finding)
    (absent : stands report.text finding = false) :
    applyOne report finding = { report with skippedStale := report.skippedStale + 1 } := by
  cases found : report.text.cut? finding.offset finding.length with
  | none => simp [applyOne, found]
  | some pieces =>
    obtain ⟨left, middle, right⟩ := pieces
    obtain ⟨whole, start, length⟩ := (Text.cut?_eq_some_iff _ _ _ _ _ _).mp found
    have other : middle ≠ finding.matched := by
      rintro rfl
      have present : stands report.text finding = true :=
        (stands_iff _ _).mpr ⟨left, right, whole, start, length⟩
      simp [present] at absent
    simp [applyOne, found, other]

/-- A finding whose match stands between two pieces is handled. -/
theorem applyOne_of_pieces (report : Report) (finding : Finding) (left right : Text)
    (whole : report.text = left ++ finding.matched ++ right) (start : left.width = finding.offset)
    (length : finding.matched.width = finding.length) :
    applyOne report finding =
      match finding.replacement? with
      | none => { report with skippedStale := report.skippedStale + 1 }
      | some new =>
        if new = finding.matched then report
        else { report with text := left ++ new ++ right, applied := report.applied + 1 } := by
  have cut : report.text.cut? finding.offset finding.length =
      some (left, finding.matched, right) :=
    (Text.cut?_eq_some_iff _ _ _ _ _ _).mpr ⟨whole, start, length⟩
  rw [applyOne, cut]
  cases finding.replacement? <;> simp

/-- A stale finding is counted, and the text stays as it is. -/
theorem applyOne_of_isStale (report : Report) (finding : Finding)
    (stale : isStale report.text finding = true) :
    applyOne report finding = { report with skippedStale := report.skippedStale + 1 } := by
  by_cases present : stands report.text finding = true
  · obtain ⟨left, right, whole, start, length⟩ := (stands_iff _ _).mp present
    have declined : finding.replacement? = none := by simpa [isStale, present] using stale
    rw [applyOne_of_pieces report finding left right whole start length, declined]
  · exact applyOne_of_not_stands report finding (by simpa using present)

/-- A stale finding asks for nothing. -/
theorem substitution?_of_isStale (stale : isStale text finding = true) :
    substitution? text finding = none := by
  by_cases present : stands text finding = true
  · have declined : finding.replacement? = none := by simpa [isStale, present] using stale
    simp [substitution?, Finding.change?, declined]
  · simp [substitution?, present]

/-- A finding whose match stands between two pieces, and whose remedy changes it, asks for that
change. -/
theorem substitution?_of_pieces {left right new : Text}
    (whole : text = left ++ finding.matched ++ right) (start : left.width = finding.offset)
    (length : finding.matched.width = finding.length) (replaced : finding.replacement? = some new)
    (changed : new ≠ finding.matched) :
    isStale text finding = false ∧
      substitution? text finding = some ⟨finding.offset, finding.length, new⟩ := by
  have present : stands text finding = true :=
    (stands_iff _ _).mpr ⟨left, right, whole, start, length⟩
  simp [isStale, substitution?, Finding.change?, present, replaced, changed]

/-- A substitution keeps the span of its finding. -/
theorem span_of_substitution? (asked : substitution? text finding = some edit) :
    edit.offset = finding.offset ∧ edit.length = finding.length := by
  simp only [substitution?] at asked
  split at asked
  · obtain ⟨change, -, rfl⟩ := Option.map_eq_some_iff.mp asked
    exact ⟨rfl, rfl⟩
  · simp at asked

/-- Every substitution stops where one of the findings does. -/
theorem stop_of_mem_substitutions (member : edit ∈ substitutions text findings) :
    ∃ finding ∈ findings, edit.stop = finding.stop := by
  obtain ⟨finding, listed, asked⟩ := List.mem_filterMap.mp member
  obtain ⟨start, length⟩ := span_of_substitution? asked
  exact ⟨finding, listed, by rw [stop, Finding.stop, start, length]⟩

/-- Only a finding with a changing remedy asks for a substitution. -/
theorem substitutions_cons (text : Text) (finding : Finding) (rest : List Finding) :
    substitutions text (finding :: rest) =
      (substitution? text finding).toList ++ substitutions text rest := by
  cases asked : substitution? text finding <;> simp [substitutions, asked]

/-- What findings ask for depends on the text only through the matches that stand in it. -/
theorem substitutions_congr {other : Text}
    (same : ∀ finding ∈ findings, stands text finding = stands other finding) :
    substitutions text findings = substitutions other findings := by
  apply List.filterMap_congr
  intro finding member
  simp only [substitution?, same finding member]

/-- Findings are as stale in two texts with the same matches. -/
theorem countP_isStale_congr {other : Text}
    (same : ∀ finding ∈ findings, stands text finding = stands other finding) :
    findings.countP (isStale text) = findings.countP (isStale other) := by
  apply List.countP_congr
  intro finding member
  simp only [isStale, same finding member]

/-- Each finding ends where the one before it starts, or earlier. -/
def BackToFront (findings : List Finding) : Prop :=
  findings.Pairwise fun finding other => other.stop ≤ finding.offset

/-- Remedies applied back to front carry out the substitutions of the text they start
from, all at once.

The induction is on the findings still to be applied. Applying the first one leaves the
text in front of its match alone, and every later match ends there: the later findings
ask for the same substitutions of the changed text as of the unchanged one. -/
theorem foldl_applyOne (findings : List Finding) (report : Report)
    (ordered : BackToFront findings) :
    findings.foldl applyOne report =
      { text := substitute (substitutions report.text findings) report.text
        applied := report.applied + (substitutions report.text findings).length
        skippedOverlap := report.skippedOverlap
        skippedStale := report.skippedStale + findings.countP (isStale report.text) } := by
  induction findings generalizing report with
  | nil => simp [substitutions, substitute_nil]
  | cons finding rest ih =>
    obtain ⟨before, ordered'⟩ := List.pairwise_cons.mp ordered
    rw [List.foldl_cons, ih _ ordered']
    cases stale : isStale report.text finding with
    | true =>
      simp only [applyOne_of_isStale report finding stale, substitutions_cons,
        substitution?_of_isStale stale, Option.toList_none, List.nil_append, List.countP_cons,
        stale, ↓reduceIte, Nat.add_assoc, Nat.add_comm 1]
    | false =>
      obtain ⟨present, new, remedied⟩ :
          stands report.text finding = true ∧ ∃ new, finding.replacement? = some new := by
        simpa [isStale, Option.isSome_iff_exists] using stale
      obtain ⟨left, right, whole, start, length⟩ := (stands_iff _ _).mp present
      rw [applyOne_of_pieces report finding left right whole start length, remedied]
      by_cases same : new = finding.matched
      · have silent : substitution? report.text finding = none := by
          simp [substitution?, Finding.change?, remedied, same]
        simp [substitutions_cons, silent, stale, same]
      · have asked : substitution? report.text finding =
            some ⟨finding.offset, finding.length, new⟩ := by
          simp [substitution?, Finding.change?, remedied, same, present]
        have agree : ∀ other ∈ rest,
            stands (left ++ new ++ right) other = stands report.text other := by
          intro other member
          have inside : other.stop ≤ left.width := start ▸ before other member
          rw [whole, List.append_assoc, List.append_assoc, stands_append left _ other inside,
            stands_append left _ other inside]
        have stopped : ∀ edit ∈ substitutions report.text rest, edit.stop ≤ finding.offset := by
          intro edit member
          obtain ⟨other, listed, span⟩ := stop_of_mem_substitutions member
          exact span ▸ before other listed
        have outcome := substitute_cons ⟨finding.offset, finding.length, new⟩
          (substitutions report.text rest) left finding.matched right start.symm length.symm
          stopped
        rw [← whole] at outcome
        simp only [same, ↓reduceIte, substitutions_congr agree, countP_isStale_congr agree,
          substitutions_cons, asked, Option.toList_some, List.singleton_append, outcome,
          List.length_cons, List.countP_cons, stale, Bool.false_eq_true, Nat.add_zero,
          Nat.add_assoc, Nat.add_comm 1]

/-! ### The order of application -/

/-- Two spans conflict when each starts before the other stops. The rule covers
insertions: one at the edge of a span does not start before the span stops and stop after
the span starts. -/
theorem conflicts_iff (finding other : Finding) :
    conflicts finding other = true ↔ finding.offset < other.stop ∧ other.offset < finding.stop := by
  unfold conflicts conflict
  split
  · rename_i empty
    simp only [Bool.and_eq_true, decide_eq_true_eq]
    simp only [Finding.stop] at *
    omega
  · split
    · rename_i wide empty
      simp only [Bool.and_eq_true, decide_eq_true_eq]
      simp only [Finding.stop] at *
      omega
    · simp only [Bool.and_eq_true, decide_eq_true_eq]

/-- Neither of two findings is preferred in a conflict. -/
theorem conflicts_comm (finding other : Finding) :
    conflicts finding other = conflicts other finding := by
  rw [Bool.eq_iff_iff, conflicts_iff, conflicts_iff, and_comm]

/-- An accepted finding conflicts with none that was taken before. -/
theorem conflicts_accept {taken : List Finding} {other : Finding} (earlier : other ∈ taken)
    (accepted : finding ∈ accept taken findings) : conflicts other finding = false := by
  induction findings generalizing taken with
  | nil => simp [accept] at accepted
  | cons first rest ih =>
    simp only [accept] at accepted
    split at accepted
    · exact ih earlier accepted
    · rename_i free
      rcases List.mem_cons.mp accepted with rfl | accepted
      · simp only [List.any_eq_true, not_exists, not_and, Bool.not_eq_true] at free
        exact free other earlier
      · exact ih (by simp [earlier]) accepted

/-- No two accepted findings conflict. -/
theorem pairwise_accept (taken findings : List Finding) :
    (accept taken findings).Pairwise fun finding other => conflicts finding other = false := by
  induction findings generalizing taken with
  | nil => simp [accept]
  | cons finding rest ih =>
    simp only [accept]
    split
    · exact ih taken
    · refine List.pairwise_cons.mpr ⟨?_, ih _⟩
      intro other accepted
      exact conflicts_accept (by simp) accepted

/-- The order in which remedies are applied is transitive. -/
theorem comesFirst_trans (first second third : Finding) (front : comesFirst first second = true)
    (back : comesFirst second third = true) : comesFirst first third = true := by
  simp only [comesFirst, Bool.or_eq_true, Bool.and_eq_true, decide_eq_true_eq, beq_iff_eq] at *
  omega

/-- Of two findings one may be applied before the other. -/
theorem comesFirst_total (finding other : Finding) :
    (comesFirst finding other || comesFirst other finding) = true := by
  simp only [comesFirst, Bool.or_eq_true, Bool.and_eq_true, decide_eq_true_eq, beq_iff_eq]
  omega

/-- Of two findings without a conflict, the one applied later ends where the other one
starts, or before. An insertion at the start of a rewritten span is applied after it. -/
theorem stop_le_of_comesFirst {other : Finding} (first : comesFirst finding other = true)
    (free : conflicts finding other = false) : other.stop ≤ finding.offset := by
  have apart : ¬(finding.offset < other.stop ∧ other.offset < finding.stop) := by
    rw [← conflicts_iff, free]
    exact Bool.false_ne_true
  simp only [comesFirst, Bool.or_eq_true, Bool.and_eq_true, decide_eq_true_eq, beq_iff_eq] at first
  simp only [Finding.stop] at *
  omega

/-- Accepted findings are applied back to front: sorted by offset and free of conflicts, each ends
before the one applied earlier. -/
theorem backToFront_mergeSort (findings : List Finding) :
    BackToFront ((accept [] findings).mergeSort comesFirst) := by
  have sorted : ((accept [] findings).mergeSort comesFirst).Pairwise
      fun finding other => comesFirst finding other = true :=
    List.pairwise_mergeSort comesFirst_trans comesFirst_total _
  have free : ((accept [] findings).mergeSort comesFirst).Pairwise
      fun finding other => conflicts finding other = false := by
    have symmetric : ∀ {finding other : Finding},
        conflicts finding other = false → conflicts other finding = false := by
      intro finding other
      rw [conflicts_comm]
      exact id
    exact ((List.mergeSort_perm _ _).pairwise_iff symmetric).mpr (pairwise_accept [] findings)
  exact sorted.imp₂ (fun _ _ => stop_le_of_comesFirst) free

/-- Sorting keeps the order of what is in order already. -/
theorem filter_mergeSort {α : Type} (before : α → α → Bool) (keep : α → Bool) (values : List α)
    (trans : ∀ a b c, before a b = true → before b c = true → before a c = true)
    (total : ∀ a b, (before a b || before b a) = true)
    (ordered : (values.filter keep).Pairwise fun a b => before a b = true) :
    (values.mergeSort before).filter keep = values.filter keep := by
  have kept : (values.filter keep).Sublist (values.mergeSort before) :=
    List.sublist_mergeSort trans total ordered List.filter_sublist
  have within : (values.filter keep).Sublist ((values.mergeSort before).filter keep) := by
    simpa using kept.filter keep
  have length : ((values.mergeSort before).filter keep).length = (values.filter keep).length :=
    ((List.mergeSort_perm values before).filter keep).length_eq
  exact (within.eq_of_length length.symm).symm

/-- Choosing among substitutions by their spans is choosing among the findings, as both have the
same spans. -/
theorem filter_substitutions (text : Text) (findings : List Finding) (keep : Nat → Nat → Bool) :
    (substitutions text findings).filter (fun edit => keep edit.offset edit.length) =
      substitutions text (findings.filter fun finding => keep finding.offset finding.length) := by
  induction findings with
  | nil => rfl
  | cons finding rest ih =>
    rw [substitutions_cons, List.filter_append, ih, List.filter_cons]
    cases asked : substitution? text finding with
    | none =>
      split
      · simp [substitutions_cons, asked]
      · rfl
    | some edit =>
      obtain ⟨start, length⟩ := span_of_substitution? asked
      split
      · rename_i kept
        simp [substitutions_cons, asked, start, length, kept]
      · rename_i dropped
        simp [start, length, dropped]

/-- Sorting the findings keeps substitutions that are in order. -/
theorem filter_substitutions_mergeSort (text : Text) (findings : List Finding)
    (keep : Nat → Nat → Bool)
    (ordered : (findings.filter fun finding => keep finding.offset finding.length).Pairwise
      fun finding other => comesFirst finding other = true) :
    (substitutions text (findings.mergeSort comesFirst)).filter
        (fun edit => keep edit.offset edit.length) =
      (substitutions text findings).filter fun edit => keep edit.offset edit.length := by
  rw [filter_substitutions, filter_substitutions,
    filter_mergeSort _ _ _ comesFirst_trans comesFirst_total ordered]

/-- Two lists of substitutions do the same to a text that starts at different offsets, when
they insert, rewrite and cover the same all along the text. -/
theorem substituteFrom_shift {edits edits' : List Substitution} (start offset : Nat) (text : Text)
    (sameInserted : ∀ place, offset ≤ place → place ≤ offset + text.width →
      inserted edits (start + place) = inserted edits' place)
    (sameRewritten : ∀ place, offset ≤ place → place < offset + text.width →
      rewritten edits (start + place) = rewritten edits' place)
    (sameCovered : ∀ place, offset ≤ place → place < offset + text.width →
      edits.any (covers (start + place)) = edits'.any (covers place)) :
    substituteFrom edits (start + offset) text = substituteFrom edits' offset text := by
  induction text generalizing offset with
  | nil => exact sameInserted offset (Nat.le_refl _) (Nat.le_add_right _ _)
  | cons c rest ih =>
    have positive : 0 < c.utf8Size := c.utf8Size_pos
    have further : offset + c.utf8Size + Text.width rest = offset + Text.width (c :: rest) := by
      rw [Text.width_cons, Nat.add_assoc]
    have inside : offset < offset + Text.width (c :: rest) := by omega
    have tail : substituteFrom edits (start + (offset + c.utf8Size)) rest =
        substituteFrom edits' (offset + c.utf8Size) rest := by
      apply ih
      · intro place behind within
        exact sameInserted place (by omega) (by omega)
      · intro place behind within
        exact sameRewritten place (by omega) (by omega)
      · intro place behind within
        exact sameCovered place (by omega) (by omega)
    rw [substituteFrom, substituteFrom, sameInserted offset (Nat.le_refl _) (by omega),
      sameRewritten offset (Nat.le_refl _) inside, sameCovered offset (Nat.le_refl _) inside,
      Nat.add_assoc, tail]

/-- Two lists of substitutions do the same when at every offset they insert the same,
rewrite the same and cover the same. -/
theorem substituteFrom_congr {edits edits' : List Substitution} (offset : Nat) (text : Text)
    (sameInserted : ∀ offset, edits.filter (insertsAt offset) = edits'.filter (insertsAt offset))
    (sameRewritten : ∀ offset, edits.filter (rewritesAt offset) = edits'.filter (rewritesAt offset))
    (sameCovered : ∀ offset, edits.any (covers offset) = edits'.any (covers offset)) :
    substituteFrom edits offset text = substituteFrom edits' offset text := by
  rw [← substituteFrom_shift 0 offset text, Nat.zero_add]
  · intro place _ _
    rw [Nat.zero_add, inserted, inserted, sameInserted]
  · intro place _ _
    rw [Nat.zero_add, rewritten, rewritten, sameRewritten]
  · intro place _ _
    rw [Nat.zero_add, sameCovered]

/-- The order of application does not show in the outcome: insertions at one offset keep
their order when the findings are sorted, and no two accepted findings rewrite from the
same offset on. -/
theorem substitute_mergeSort (text : Text) (findings : List Finding)
    (free : findings.Pairwise fun finding other => conflicts finding other = false) :
    substitute (substitutions text (findings.mergeSort comesFirst)) text =
      substitute (substitutions text findings) text := by
  refine substituteFrom_congr 0 text (fun offset => ?_) (fun offset => ?_) (fun offset => ?_)
  · have ordered :
        (findings.filter fun finding => finding.length == 0 && finding.offset == offset).Pairwise
          fun finding other => comesFirst finding other = true := by
      apply List.pairwise_of_forall_mem_list
      intro finding member other member'
      simp only [List.mem_filter, Bool.and_eq_true, beq_iff_eq] at member member'
      simp [comesFirst, Finding.stop, member, member']
    exact filter_substitutions_mergeSort text findings
      (fun start length => length == 0 && start == offset) ordered
  · have ordered :
        (findings.filter fun finding => finding.length != 0 && finding.offset == offset).Pairwise
          fun finding other => comesFirst finding other = true := by
      refine (free.filter _).imp_of_mem ?_
      intro finding other member member' apart
      simp only [List.mem_filter, Bool.and_eq_true, bne_iff_ne, beq_iff_eq] at member member'
      have clash : conflicts finding other = true := by
        rw [conflicts_iff, Finding.stop, Finding.stop]
        omega
      simp [clash] at apart
    exact filter_substitutions_mergeSort text findings
      (fun start length => length != 0 && start == offset) ordered
  · exact ((List.mergeSort_perm findings comesFirst).filterMap _).any_eq

/-- The run of a repair in terms of the original text. -/
theorem run_eq_substitute (text : Text) (findings : List Finding) :
    let fixable := findings.filter Finding.isFixable
    let accepted := accept [] fixable
    run text findings =
      { text := substitute (substitutions text accepted) text
        applied := (substitutions text accepted).length
        skippedOverlap := fixable.length - accepted.length
        skippedStale := accepted.countP (isStale text) } := by
  intro fixable accepted
  have sorted : (accepted.mergeSort comesFirst).Perm accepted := List.mergeSort_perm _ _
  have outcome := foldl_applyOne (accepted.mergeSort comesFirst)
    ⟨text, 0, fixable.length - accepted.length, 0⟩ (backToFront_mergeSort fixable)
  rw [substitute_mergeSort text accepted (pairwise_accept [] fixable), sorted.countP_eq] at outcome
  have length : (substitutions text (accepted.mergeSort comesFirst)).length =
      (substitutions text accepted).length := (sorted.filterMap _).length_eq
  simpa only [run, length, Nat.zero_add] using outcome

/-- The remedy of one finding alone puts its text in place of the match, and nothing else
changes. -/
theorem text_run_singleton {left right new : Text} (whole : text = left ++ finding.matched ++ right)
    (start : left.width = finding.offset) (length : finding.matched.width = finding.length)
    (replaced : finding.replacement? = some new) :
    (run text [finding]).text = left ++ new ++ right := by
  have fixable : finding.isFixable = true := by
    obtain ⟨remedy, offered, -⟩ := Option.bind_eq_some_iff.mp replaced
    rw [Finding.isFixable, offered]
    rfl
  have applied := applyOne_of_pieces ⟨text, 0, 0, 0⟩ finding left right whole start length
  rw [replaced] at applied
  simp only [run, List.filter_cons_of_pos fixable, List.filter_nil, accept, List.any_nil,
    Bool.false_eq_true, ↓reduceIte, List.mergeSort_singleton, List.foldl_cons, List.foldl_nil,
    List.length_singleton, Nat.sub_self, applied]
  split
  · rename_i same
    rw [same, whole]
  · rfl

/-- A run that applies nothing leaves the text as it is. -/
theorem text_run_of_applied (idle : (run text findings).applied = 0) :
    (run text findings).text = text := by
  rw [run_eq_substitute] at idle ⊢
  rw [List.length_eq_zero_iff.mp idle]
  exact substitute_nil text

/-- The accepted findings stand in their order. -/
theorem accept_sublist (taken findings : List Finding) :
    (accept taken findings).Sublist findings := by
  induction findings generalizing taken with
  | nil => exact .slnil
  | cons finding rest ih =>
    simp only [accept]
    split
    · exact (ih taken).cons _
    · exact (ih _).cons_cons _

/-- Looking at the findings one by one accepts the same findings and counts the rest. -/
theorem foldl_consider (findings accepted : List Finding) (refused : Nat) :
    findings.foldl consider (accepted, refused) =
      (accepted ++ accept accepted.reverse findings,
        refused + (findings.length - (accept accepted.reverse findings).length)) := by
  induction findings generalizing accepted refused with
  | nil => simp [accept]
  | cons finding rest ih =>
    have reversed : (accepted.reverse.any fun other => conflicts other finding) =
        accepted.any fun other => conflicts other finding := List.any_reverse
    simp only [List.foldl_cons, consider, accept, reversed]
    split
    · have bound := (accept_sublist accepted.reverse rest).length_le
      simp only [ih, List.length_cons, Prod.mk.injEq, true_and]
      omega
    · simp [ih]

/-- Applying remedies is one simultaneous substitution in the original text: every
finding is judged and every remedy placed by that text alone, in the order in which the
findings are listed, and the three counts are those of the judgement. -/
theorem run_eq_simultaneous (text : Text) (findings : List Finding) :
    run text findings = simultaneous text findings := by
  rw [run_eq_substitute]
  simp [simultaneous, foldl_consider]

end ScriptCheck.Repair
