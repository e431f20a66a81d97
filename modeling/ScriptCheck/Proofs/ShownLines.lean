import ScriptCheck.Output.Pretty
import ScriptCheck.Proofs.ByteScan
import ScriptCheck.Proofs.LineRules
import ScriptCheck.Proofs.Lines
import ScriptCheck.Proofs.Placement

/-!
# The line shown with a finding

A finding is shown with the line it is on, which is looked up by its number among the lines of
the text. These lines are not quite the stretches between the newlines: a carriage return in
front of a newline is left out, and so is an empty line behind the last newline. A number can
therefore have no line, and a finding behind the last newline would be shown without one.

No finding of a built-in rule stands on such a line. What a rule matches is not empty, except
where a semicolon is missing, and a semicolon is only missing behind something solid. So the
number always has a line, and it is the stretch of the text within the line bounds.
-/

namespace ScriptCheck

namespace Text

/-! ### The lines of a text, by number -/

namespace LineIn

variable {text above line below front back : Text}

/-- Induction over the lines of a text: a line is the first one, or it is a line behind the first
newline. -/
@[elab_as_elim]
theorem rec_above {motive : (text above : Text) → LineIn text above line below → Prop}
    (first : ∀ isLine, motive (line ++ below) [] isLine)
    (further : ∀ upper rest text isLine isLine', (∀ c ∈ upper, c ≠ '\n') →
      motive text rest isLine → motive (upper ++ '\n' :: text) (upper ++ '\n' :: rest) isLine')
    (isLine : LineIn text above line below) : motive text above isLine := by
  induction above using lineInduction generalizing text with
  | last upper oneLine =>
    obtain rfl : upper = [] := by
      rcases List.eq_nil_or_concat upper with none | ⟨init, c, rfl⟩
      · exact none
      · exact absurd (isLine.opened c (by simp)) (oneLine c (by simp))
    obtain rfl : text = line ++ below := isLine.whole
    exact first isLine
  | further upper rest oneLine ih =>
    have opened : ∀ c ∈ rest.getLast?, c = '\n' := by
      intro c last
      apply isLine.opened
      rw [List.getLast?_append, List.getLast?_cons, last]
      rfl
    have whole : text = upper ++ '\n' :: (rest ++ line ++ below) := by
      simp [isLine.whole]
    have isLine' : LineIn (rest ++ line ++ below) rest line below :=
      ⟨rfl, opened, isLine.oneLine, isLine.closed⟩
    subst whole
    exact further upper rest _ isLine' isLine oneLine (ih isLine')

/-- The lines above a line number it, unless it is empty and the last one, which is then not
listed. -/
theorem getElem?_lines (isLine : LineIn text above line below) (present : line ++ below ≠ []) :
    text.lines[above.count '\n']? = some (if below = [] then line else line.chomp) := by
  induction isLine using rec_above with
  | first isLine =>
    cases below with
    | nil =>
      rw [List.append_nil] at present ⊢
      rw [lines_last isLine.oneLine present]
      rfl
    | cons c below =>
      obtain rfl : c = '\n' := isLine.closed c rfl
      rw [lines_line isLine.oneLine]
      rfl
  | further upper rest text _ _ oneLine ih =>
    rw [lines_line oneLine, List.count_append, count_of_oneLine oneLine, Nat.zero_add,
      List.count_cons_self, List.getElem?_cons_succ, ih]

/-- The line bounds of a place on a line are those of the line. -/
theorem lineBounds_width (isLine : LineIn text above (front ++ back) below) :
    text.lineBounds (above ++ front).width = (above.width, (above ++ (front ++ back)).width) := by
  have oneLine : ∀ c ∈ back, c ≠ '\n' := (List.forall_mem_append.mp isLine.oneLine).2
  have cut : text = above ++ front ++ (back ++ below) := by simp [isLine.whole]
  rw [cut, Text.lineBounds_width, isLine.lastLine_eq rfl, firstLine_eq oneLine isLine.closed]
  simp only [width_append, Nat.add_sub_cancel, Nat.add_assoc]

/-- The text within the line bounds is the line. -/
theorem slice?_lineBounds (isLine : LineIn text above line below) :
    text.slice? above.width (above ++ line).width = some line :=
  (slice?_eq_some_iff _ _ _ _).mpr ⟨above, below, isLine.whole, rfl, (width_append _ _).symm⟩

/-- A newline follows a line, or nothing. -/
theorem byteAt?_stop (isLine : LineIn text above line below) :
    text.byteAt? (above ++ line).width = some '\n' ↔ below ≠ [] := by
  rw [isLine.whole, byteAt?_width_eq_some_iff _ _ rfl]
  cases below with
  | nil => simp
  | cons c below => simp [isLine.closed c rfl]

end LineIn

/-- Every place of a text is on a line. -/
theorem exists_lineIn_firstLine (left right : Text) :
    ∃ above front below, left = above ++ front ∧ right = right.firstLine ++ below ∧
      LineIn (left ++ right) above (front ++ right.firstLine) below := by
  obtain ⟨below, split, oneLine, ends⟩ := Line.exists_below right
  have whole : left ++ right = left ++ right.firstLine ++ below := by
    rw [List.append_assoc]
    exact congrArg (left ++ ·) split
  obtain ⟨above, front, parted, isLine⟩ := exists_lineIn whole oneLine ends
  exact ⟨above, front, below, parted, split, isLine⟩

/-- What a text starts with reaches to its first line's end at most. -/
theorem firstLine_isPrefix_append (text rest : Text) :
    text.firstLine <+: (text ++ rest).firstLine := by
  rw [firstLine, firstLine, List.takeWhile_append]
  split
  · exact (List.takeWhile_prefix _).trans (List.prefix_append text _)
  · exact List.prefix_rfl

end Text

/-! ### What rules match -/

namespace Pattern

/-- Whether a pattern has to take a character, by its shape. -/
def takesSome : Pattern → Bool
  | char _ => true
  | seq first second => first.takesSome || second.takesSome
  | either first second => first.takesSome && second.takesSome
  | rounds _ round => round.takesSome
  | group _ inner => inner.takesSome
  | empty | run _ _ | anchor _ => false

/-- A pattern that has to take a character fits no empty stretch. The induction follows the
pattern. -/
theorem Fits.ne_nil_of_takesSome {pattern : Pattern} (takes : pattern.takesSome = true)
    {before body after : Text} {captures : List Capture}
    (fits : pattern.Fits before body after captures) : body ≠ [] := by
  induction pattern generalizing before body after captures with
  | empty | run | anchor => cases takes
  | char accepts =>
    obtain ⟨⟨c, -, rfl⟩, -⟩ := fits
    exact List.cons_ne_nil c []
  | seq first second firstTakes secondTakes =>
    obtain ⟨front, back, _, _, rfl, -, fits, fits'⟩ := fits
    rcases Bool.or_eq_true_iff.mp takes with takes | takes
    · exact List.append_ne_nil_of_left_ne_nil (firstTakes takes fits) back
    · exact List.append_ne_nil_of_right_ne_nil front (secondTakes takes fits')
  | either first second firstTakes secondTakes =>
    obtain ⟨takes, takes'⟩ := Bool.and_eq_true_iff.mp takes
    rcases fits with fits | fits
    · exact firstTakes takes fits
    · exact secondTakes takes' fits
  | rounds greedy round roundTakes =>
    obtain ⟨front, back, _, _, rfl, -, fits, -⟩ := fits
    exact List.append_ne_nil_of_left_ne_nil (roundTakes takes fits) back
  | group number inner innerTakes =>
    obtain ⟨inside, -, fits⟩ := fits
    exact innerTakes takes fits

end Pattern

namespace Rule

variable {rule : Rule} {known : Text → Bool} {text : Text} {findings : List Finding}
  {finding : Finding}

/-- One built-in rule can match the empty text. -/
theorem takesSome_of_mem_builtin [Engine] (builtin : rule ∈ Catalogue.builtin.rules) :
    rule = Semicolon.missing ∨ rule.pattern.takesSome = true := by
  simp only [Catalogue.builtin, List.mem_cons, List.not_mem_nil, or_false] at builtin
  rcases builtin with rfl | rfl | rfl | rfl | rfl | rfl | rfl | rfl | rfl | rfl | rfl | rfl | rfl
  · exact .inl rfl
  all_goals exact .inr rfl

/-- A finding of a built-in rule has matched something, or stands behind something on its
line. -/
theorem exists_placed_of_mem_builtin [Engine] (builtin : rule ∈ Catalogue.builtin.rules)
    (searched : rule.findings? known text = some findings) (member : finding ∈ findings) :
    ∃ before after, finding.Placed text before after ∧
      (finding.matched ≠ [] ∨ ∃ c ∈ before.getLast?, c ≠ '\n') := by
  obtain ⟨before, after, placed⟩ :=
    exists_placed (rule.pattern.searched_allMatches text) searched member
  refine ⟨before, after, placed, ?_⟩
  obtain ⟨found, left, right, captures, rfl, occurs, confirmed⟩ :=
    exists_match_of_mem_findings? searched member
  rcases takesSome_of_mem_builtin builtin with rfl | takes
  · have same : left ++ (found.body ++ right) = before ++ (found.body ++ after) := by
      rw [← List.append_assoc, ← occurs.whole, placed.whole, List.append_assoc]
      rfl
    have width : left.width = before.width := occurs.start_eq.symm.trans placed.offset
    obtain ⟨rfl, -⟩ := Text.append_inj_of_width same width
    obtain ⟨c, last, solid, -⟩ :=
      (Semicolon.insertion_of_occurs occurs (confirmed _ rfl)).last
    refine .inr ⟨c, last, ?_⟩
    rintro rfl
    exact absurd solid (by decide)
  · exact .inl (occurs.fits.ne_nil_of_takesSome takes)

end Rule

namespace Output

open Text

/-- For every finding of a built-in rule a line is shown. It is the text within the line bounds
of the finding, without a carriage return in front of the newline that ends it, and what the
finding has matched starts on it. -/
theorem shows_line_within_bounds [Engine] {rule : Rule} {known : Text → Bool} {file : Surveyed}
    {findings : List Finding} {finding : Finding} (builtin : rule ∈ Catalogue.builtin.rules)
    (searched : rule.findings? known file.source = some findings) (member : finding ∈ findings) :
    ∃ start stop line, file.source.lineBounds finding.offset = (start, stop) ∧
      file.source.slice? start stop = some line ∧ (∀ c ∈ line, c ≠ '\n') ∧
      sourceLine? file finding =
        some (if file.source.byteAt? stop = some '\n' then line.chomp else line) ∧
      ∃ front back, line = front ++ finding.matched.firstLine ++ back ∧
        start + front.width = finding.offset := by
  obtain ⟨before, after, placed, solid⟩ := Rule.exists_placed_of_mem_builtin builtin searched member
  obtain ⟨above, front, below, rfl, split, isLine⟩ :=
    exists_lineIn_firstLine before (finding.matched ++ after)
  obtain ⟨back, reaches⟩ := firstLine_isPrefix_append finding.matched after
  rw [← List.append_assoc, ← placed.whole] at isLine
  -- The line is among the lines of the text: it is not empty, or it is not the last one.
  have present : front ++ (finding.matched ++ after).firstLine ++ below ≠ [] := by
    rw [List.append_assoc, ← split]
    rcases solid with present | ⟨c, last, differs⟩
    · simp [present]
    · intro empty
      obtain ⟨rfl, -⟩ := List.append_eq_nil_iff.mp empty
      exact differs (isLine.opened c (by simpa using last))
  have shown : sourceLine? file finding = file.source.lines[above.count '\n']? := by
    have oneLine : ∀ c ∈ front, c ≠ '\n' := isLine.oneLine_front rfl
    rw [sourceLine?, placed.line, placed.column, List.count_append, count_of_oneLine oneLine]
  refine ⟨_, _, _, placed.offset ▸ isLine.lineBounds_width, isLine.slice?_lineBounds,
    isLine.oneLine, ?_, front, back, ?_, ?_⟩
  · rw [shown, isLine.getElem?_lines present]
    simp only [isLine.byteAt?_stop, ite_not]
  · rw [← reaches, List.append_assoc]
  · rw [placed.offset, width_append]

/-- Two semicolons are missing, one in front of a carriage return and one at the very end. -/
theorem shows_lines_of_missing_semicolons :
    let _ : Engine := .unlimited
    let file : Surveyed := ⟨"a.js", "let x = 1\r\nlet y = 2".toList, []⟩
    ∃ first second, Semicolon.missing.findings? (fun _ => false) file.source =
        some [first, second] ∧ first.offset = 9 ∧ second.offset = 20 ∧
      sourceLine? file first = some "let x = 1".toList ∧
      sourceLine? file second = some "let y = 2".toList := by
  intro _ file
  have offsets : (Semicolon.missing.findings? (fun _ => false) file.source).map
      (List.map Finding.offset) = some [9, 20] := by
    decide +kernel
  obtain ⟨findings, searched, offsets⟩ := Option.map_eq_some_iff.mp offsets
  obtain ⟨first, others, rfl, place, further⟩ := List.map_eq_cons_iff.mp offsets
  obtain ⟨second, none, rfl, place', empty⟩ := List.map_eq_cons_iff.mp further
  obtain rfl := List.map_eq_nil_iff.mp empty
  have shown {finding : Finding} (member : finding ∈ [first, second]) {place start stop : Nat}
      {line : Text} (offset : finding.offset = place)
      (bounds : file.source.lineBounds place = (start, stop))
      (slice : file.source.slice? start stop = some line) : sourceLine? file finding =
        some (if file.source.byteAt? stop = some '\n' then line.chomp else line) := by
    obtain ⟨start', stop', line', bounds', slice', -, shown, -⟩ :=
      shows_line_within_bounds (.head _) searched member
    rw [offset, bounds] at bounds'
    obtain ⟨rfl, rfl⟩ := Prod.mk.inj bounds'
    obtain rfl := Option.some.inj (slice.symm.trans slice')
    exact shown
  have slice : file.source.slice? 0 10 = some "let x = 1\r".toList := by decide +kernel
  have slice' : file.source.slice? 11 20 = some "let y = 2".toList := by decide +kernel
  refine ⟨first, second, searched, place, place', ?_, ?_⟩
  · exact (shown (.head _) place (by decide +kernel) slice).trans (by decide +kernel)
  · exact (shown (.tail _ (.head _)) place' (by decide +kernel) slice').trans (by decide +kernel)

end Output

end ScriptCheck
