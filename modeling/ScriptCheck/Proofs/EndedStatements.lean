import ScriptCheck.Proofs.Alteration
import ScriptCheck.Proofs.LineRules
import ScriptCheck.Proofs.Crlf.Rules
import ScriptCheck.Proofs.WrappedBodies

/-!
# Statements that are given their semicolons

A semicolon is put where the scanner is in code, so that it is code and leaves everything else
what it was. Whether a line lacks its semicolon hangs on the line, on the mode it is read in and
on what the next line with more than blanks starts with. None of this changes on a line that is
not given a semicolon, and a line that is given one ends in it. One pass therefore ends every
statement that is reported, and no line is reported afterwards.
-/

namespace ScriptCheck

namespace Text

/-- A mark that starts a text starts a front of it, when what follows the front is not in the
mark. -/
theorem startsWith_append {front rest mark : Text} (outside : ∀ c ∈ rest.head?, c ∉ mark) :
    (front ++ rest).startsWith mark = front.startsWith mark := by
  rw [Bool.eq_iff_iff, startsWith, startsWith, List.isPrefixOf_iff_prefix,
    List.isPrefixOf_iff_prefix]
  refine ⟨?_, fun started => started.trans (List.prefix_append front rest)⟩
  rintro ⟨behind, split⟩
  rcases List.append_eq_append_iff.mp split with ⟨gap, rfl, -⟩ | ⟨gap, rfl, ahead⟩
  · exact List.prefix_append mark gap
  · cases gap with
    | nil => simp
    | cons c gap => exact absurd (by simp) (outside c (by simp [ahead]))

/-- The first blanks of a text are those of a front that is not all blank. -/
theorem trimStart_append {front : Text} (solid : ∃ c ∈ front, isBlank c = false) (rest : Text) :
    (front ++ rest).trimStart = front.trimStart ++ rest := by
  rw [trimStart, trimStart, List.dropWhile_append]
  obtain ⟨c, listed, notBlank⟩ := solid
  cases left : front.dropWhile isBlank with
  | cons d behind => rfl
  | nil =>
    rw [← List.takeWhile_append_dropWhile (p := isBlank) (l := front), left,
      List.append_nil] at listed
    rw [List.all_eq_true.mp List.all_takeWhile c listed] at notBlank
    cases notBlank

/-- Trimming the start drops the blanks in front of a text. -/
theorem trimStart_append_of_isBlank {front : Text} (blank : ∀ c ∈ front, isBlank c = true)
    (rest : Text) : (front ++ rest).trimStart = rest.trimStart :=
  List.dropWhile_append_of_pos blank

/-- Whether the first of some lines that is not blank starts with a mark. -/
def nextStartsWith (mark : Text) (lines : List Text) : Bool :=
  ((lines.map trim).find? fun line => !line.isEmpty).any (·.startsWith mark)

section NextLine

variable {mark : Text} (present : mark ≠ []) (solid : ∀ c ∈ mark, isBlank c = false)

include solid in
/-- One line more, when the later lines start with the mark exactly if the text does that they
come from. -/
theorem nextStartsWith_cons {line rest : Text} {later : List Text}
    (ends : ∀ c ∈ rest.head?, isBlank c = true)
    (further : nextStartsWith mark later = rest.trimStart.startsWith mark) :
    nextStartsWith mark (line :: later) = (line ++ rest).trimStart.startsWith mark := by
  rw [nextStartsWith, List.map_cons, List.find?_cons]
  cases empty : line.trim.isEmpty with
  | true =>
    rw [trimStart_append_of_isBlank ((isEmpty_trim_iff line).mp empty)]
    exact further
  | false =>
    have content : ∃ c ∈ line, isBlank c = false := by
      have shown := mt (isEmpty_trim_iff line).mpr (by simp [empty])
      simpa using shown
    obtain ⟨blanks, split, blank⟩ := exists_blanks_of_trimEnd line.trimStart
    have whole : line.trimStart ++ rest = line.trim ++ (blanks ++ rest) := by
      rw [← List.append_assoc]
      exact congrArg (· ++ rest) split
    rw [trimStart_append content, whole]
    symm
    apply startsWith_append
    intro c first listed
    have blank' : isBlank c = true := by
      cases blanks with
      | nil => exact ends c first
      | cons d blanks =>
        obtain rfl := Option.some.inj first
        exact blank d (.head _)
    rw [solid c listed] at blank'
    cases blank'

include present solid in
/-- The first line that is not blank starts as the text does behind its blanks, newlines being
blanks. -/
theorem nextStartsWith_linesFrom (current text : Text) :
    nextStartsWith mark (lineMarks.linesFrom current text) =
      (trimStart (current.reverse ++ text)).startsWith mark := by
  have nothing : startsWith [] mark = false := by
    cases mark with
    | nil => exact absurd rfl present
    | cons c mark => rfl
  induction text generalizing current with
  | nil =>
    cases current with
    | nil => exact nothing.symm
    | cons c current => exact nextStartsWith_cons solid (by simp) nothing.symm
  | cons c text ih =>
    by_cases newline : c = '\n'
    · subst newline
      obtain ⟨tail, split, blank⟩ : ∃ tail,
          current.reverse = (lineMarks.dropReturn current).reverse ++ tail ∧
            ∀ c ∈ tail, isBlank c = true := by
        rcases lineMarks.dropReturn_cases current with kept | returned
        · exact ⟨[], by simp [kept], by simp⟩
        · refine ⟨['\r'], ?_, List.all_eq_true.mp (by decide)⟩
          rw [← List.reverse_cons]
          exact congrArg List.reverse returned
      have blank' : ∀ c ∈ tail ++ ['\n'], isBlank c = true :=
        List.forall_mem_append.mpr ⟨blank, List.all_eq_true.mp (by decide)⟩
      have whole : current.reverse ++ '\n' :: text =
          (lineMarks.dropReturn current).reverse ++ (tail ++ ['\n'] ++ text) := by
        rw [split]
        simp
      rw [LineMarks.linesFrom, if_pos rfl, whole]
      refine nextStartsWith_cons solid ?_ ?_
      · intro c first
        rw [List.head?_append] at first
        cases start : (tail ++ ['\n']).head? with
        | none => simp at start
        | some d =>
          rw [start] at first
          obtain rfl := Option.some.inj first
          exact blank' d (List.mem_of_mem_head? start)
      · rw [trimStart_append_of_isBlank blank']
        exact ih []
    · rw [LineMarks.linesFrom, if_neg newline, ih (c :: current)]
      simp

end NextLine

end Text

namespace Semicolon

open Pattern Phrase Repair Checker

variable {checker : Checker} {finding : Finding} {text left right : Text}

/-! ### Whether a statement goes on -/

/-- Whether what follows a line goes on with its statement. -/
def goesOn (below : Text) : Bool :=
  continuations.any fun mark => below.trimStart.startsWith mark.toList

/-- The marks that go on with a statement are solid. -/
theorem solid_of_mem_continuations {mark : String} (listed : mark ∈ continuations) :
    mark.toList ≠ [] ∧ ∀ c ∈ mark.toList, isBlank c = false ∧ c ≠ ';' := by
  have each : (continuations.all fun mark => !mark.toList.isEmpty &&
      mark.toList.all fun c => !isBlank c && c != ';') = true := by decide
  simpa using List.all_eq_true.mp each mark listed

/-- A statement is finished at a place of a line if what follows the line does not go on with it. -/
theorem isFinished_eq (left : Text) {back below : Text} (oneLine : ∀ c ∈ back, c ≠ '\n')
    (closed : ∀ c ∈ below.head?, c = '\n') :
    isFinished (left ++ (back ++ below)) left.width = !goesOn below := by
  have ahead : (back ++ below).dropWhile (· ≠ '\n') = below := by
    rw [List.dropWhile_append_of_pos (by simpa using oneLine)]
    cases below with
    | nil => rfl
    | cons c rest =>
      obtain rfl := closed c rfl
      rfl
  have next : ∀ mark ∈ continuations,
      ((left ++ (back ++ below)).nextLine? left.width).any (·.startsWith mark.toList) =
        below.trimStart.startsWith mark.toList := by
    intro mark listed
    obtain ⟨present, solid⟩ := solid_of_mem_continuations listed
    have lines (rest : Text) :=
      Text.nextStartsWith_linesFrom present (fun c => And.left ∘ solid c) [] rest
    rw [Text.nextLine?_width, ahead]
    cases below with
    | nil => exact lines []
    | cons c rest =>
      obtain rfl := closed c rfl
      exact lines rest
  have asked : goesOn below = continuations.any fun mark =>
      ((left ++ (back ++ below)).nextLine? left.width).any (·.startsWith mark.toList) := by
    rw [goesOn, Bool.eq_iff_iff, List.any_eq_true, List.any_eq_true]
    exact exists_congr fun mark => and_congr_right fun listed => by rw [next mark listed]
  rw [isFinished, asked]
  cases (left ++ (back ++ below)).nextLine? left.width with
  | none => simp
  | some line => rfl

/-- What a line with more than blanks starts with is not changed by what follows it. -/
theorem goesOn_append {front rest : Text} (solid : ∃ c ∈ front, isBlank c = false)
    (ends : ∀ c ∈ rest.head?, isBlank c = true ∨ c = ';') :
    goesOn (front ++ rest) = goesOn front := by
  have each : ∀ mark ∈ continuations, (front ++ rest).trimStart.startsWith mark.toList =
      front.trimStart.startsWith mark.toList := by
    intro mark listed
    rw [Text.trimStart_append solid]
    apply Text.startsWith_append
    intro c first inMark
    obtain ⟨notBlank, other⟩ := (solid_of_mem_continuations listed).2 c inMark
    rcases ends c first with blank | same
    · rw [notBlank] at blank
      cases blank
    · exact other same
  rw [goesOn, goesOn, Bool.eq_iff_iff, List.any_eq_true, List.any_eq_true]
  exact exists_congr fun mark => and_congr_right fun listed => by rw [each mark listed]

/-- Blanks in front do not matter to whether a text goes on. -/
theorem goesOn_append_of_isBlank {front : Text} (blank : ∀ c ∈ front, isBlank c = true)
    (rest : Text) : goesOn (front ++ rest) = goesOn rest := by
  simp only [goesOn, Text.trimStart_append_of_isBlank blank]

/-! ### The lines that are given a semicolon -/

/-- A finding puts a semicolon in front of the blank end of a line, behind a statement and in
code. -/
structure Ends (finding : Finding) (text left right : Text) : Prop where
  whole : text = left ++ finding.matched ++ right
  place : left.width = finding.offset
  length : finding.matched.width = finding.length
  replaced : finding.replacement? = some (';' :: finding.matched)
  blank : ∀ c ∈ finding.matched, among " \t\r" c = true
  solid : ∃ c ∈ left.lastLine, isBlank c = false
  settled : Mode.code.after left = .code

/-- The pattern of the rule matches to the end of a line. -/
theorem fillsLine_missing : missing.pattern.FillsLine := by
  intro before body after captures fits
  obtain ⟨blank, ends⟩ := form_of_fits_missing fits
  exact ⟨fun c listed => (Line.of_blank (blank c listed)).2.2, ends⟩

/-- The statement that is reported ends in code, since its last character is code or the end of a
literal. -/
theorem after_of_isReported (reported : isReported (left ++ right) left = true) :
    Mode.code.after left = .code := by
  simp only [isReported, Bool.and_eq_true] at reported
  obtain ⟨⟨may, inCode⟩, -⟩ := reported
  obtain ⟨c, last, -⟩ := last_of_mayEnd may
  obtain ⟨front, rfl⟩ := List.getLast?_eq_some_iff.mp last
  have notSlash : c ≠ '/' := by
    rintro rfl
    rw [List.reverse_append] at may
    cases may
  have width : Text.width (front ++ [c]) = Text.width front + c.utf8Size := by simp
  rw [List.append_assoc, List.singleton_append, width, endsInCode_layout, Bool.or_eq_true] at inCode
  rw [Mode.after_append, Mode.after_cons, Mode.after_nil]
  rcases inCode with shown | closing
  · have inside := Mode.inCode_step_of_showsCode shown
    cases mode : (Mode.code.after front).step c with
    | code => rfl
    | slash => exact absurd (Mode.eq_of_step_eq_slash mode) notSlash
    | _ =>
      rw [mode] at inside
      cases inside
  · exact Mode.step_of_closes (Mode.proper_code_after front) closing

/-- The rule reports the line ends that lack a semicolon. -/
theorem findings?_missing (known : Text → Bool) (text : Text) :
    missing.findings? known text =
      some (((missing.pattern.allMatches text).filter fun found =>
        isReported text found.whole.start.before.reverse).map (missing.finding text)) :=
  Rule.findings?_of_decides rfl fun _ member => decides_isMissing_of_mem (fun _ => false) member

/-- Each finding of the rule puts a semicolon in front of the blank end of a line, behind a
statement and in code. -/
theorem exists_ends (member : finding ∈ checker.ruleFindings text missing) :
    ∃ left right, Ends finding text left right := by
  rw [ruleFindings, findings?_missing] at member
  obtain ⟨found, listed, rfl⟩ := List.mem_map.mp member
  obtain ⟨listed, reported⟩ := List.mem_filter.mp listed
  obtain ⟨left, right, captures, occurs⟩ := occurs_of_mem_allMatches listed
  rw [occurs.before, List.reverse_reverse] at reported
  have statement : isStatement left.lastLine.trim = true := by
    simp only [isReported, Bool.and_eq_true] at reported
    exact reported.2.1.2
  have settled : Mode.code.after left = .code := by
    rw [occurs.whole, List.append_assoc] at reported
    exact after_of_isReported reported
  refine ⟨left, right, occurs.whole, occurs.start_eq.symm, occurs.width_eq.symm, rfl,
    (form_of_fits_missing occurs.fits).1, ?_, settled⟩
  -- a line of blanks is no statement
  have shown : ¬left.lastLine.trim.isEmpty = true := by
    intro empty
    rw [List.isEmpty_iff.mp empty] at statement
    revert statement
    decide
  rw [Text.isEmpty_trim_iff] at shown
  simpa using shown

/-- A line is left in the mode it was left in before, with or without a semicolon. -/
theorem keepsMode (checker : Checker) (text : Text) :
    Text.KeepsMode (EditsLine text (checker.ruleFindings text missing)) := by
  intro above line below new edits
  rcases edits.edit with ⟨rfl, -⟩ | ⟨finding, member, front, replaced, place, split, given, rfl⟩
  · rfl
  · obtain ⟨left, right, ends⟩ := exists_ends member
    obtain rfl := edits.left_eq ends.whole ends.place place split
    obtain rfl := Option.some.inj (given.symm.trans ends.replaced)
    have plain : ∀ c ∈ finding.matched, Mode.isPlain c = true :=
      fun c listed => (Line.of_blank (ends.blank c listed)).2.1
    have settled : (Mode.code.after above).after front = .code := by
      rw [← Mode.after_append]
      exact ends.settled
    have code := Mode.code_after_of_isPlain plain
    have semicolon : Mode.code.step ';' = .code := by decide
    rw [split, Mode.after_append, Mode.after_append, settled, Mode.after_cons, semicolon]

/-- A line stays as it is or is given a semicolon behind its last character that is no blank. -/
theorem eq_or_ended_of_editsLine {above line below new : Text}
    (edits : EditsLine text (checker.ruleFindings text missing) above line below new) :
    new = line ∨ ∃ front matched, line = front ++ matched ∧ new = front ++ ';' :: matched ∧
      (∃ c ∈ front, isBlank c = false) ∧ ∀ c ∈ matched, isBlank c = true := by
  rcases edits.edit with ⟨same, -⟩ | ⟨finding, member, front, replaced, place, split, given, new⟩
  · exact .inl same
  · obtain ⟨left, right, ends⟩ := exists_ends member
    obtain rfl := edits.left_eq ends.whole ends.place place split
    obtain rfl := Option.some.inj (given.symm.trans ends.replaced)
    refine .inr ⟨front, finding.matched, split, new, ?_, fun c listed =>
      (Line.of_blank (ends.blank c listed)).1⟩
    have solid := ends.solid
    rwa [edits.isLine.lastLine_eq split] at solid

/-- A line goes on with a statement with or without a semicolon. -/
theorem goesOn_ended {front matched rest : Text} (solid : ∃ c ∈ front, isBlank c = false)
    (blank : ∀ c ∈ matched, isBlank c = true) (ends : ∀ c ∈ rest.head?, isBlank c = true)
    (rest' : Text) :
    goesOn (front ++ ';' :: matched ++ rest') = goesOn (front ++ matched ++ rest) := by
  rw [List.append_assoc, List.append_assoc, goesOn_append solid (by simp), goesOn_append solid]
  intro c first
  cases matched with
  | nil => exact .inl (ends c first)
  | cons d matched =>
    obtain rfl := Option.some.inj first
    exact .inl (blank d (.head _))

/-- What goes on with a statement does so whether or not it is given semicolons. The induction is on
the lines. -/
theorem goesOn_eq_of_lineByLine {above rest rest' : Text}
    (lines : Text.LineByLine (EditsLine text (checker.ruleFindings text missing))
      above rest rest') :
    goesOn rest' = goesOn rest := by
  induction lines with
  | @last above line new oneLine oneLine' edits =>
    rcases eq_or_ended_of_editsLine edits with rfl | ⟨front, matched, rfl, rfl, solid, blank⟩
    · rfl
    · have same := goesOn_ended solid blank (show ∀ c ∈ List.head? [], isBlank c = true by simp) []
      rwa [List.append_nil, List.append_nil] at same
  | @further above line new rest rest' oneLine oneLine' edits behind ih =>
    have newline : isBlank '\n' = true := by decide
    rcases eq_or_ended_of_editsLine edits with rfl | ⟨front, matched, rfl, rfl, solid, blank⟩
    · by_cases solid : ∃ c ∈ new, isBlank c = false
      · rw [goesOn_append solid (by simp [newline]), goesOn_append solid (by simp [newline])]
      · have blank : ∀ c ∈ new ++ ['\n'], isBlank c = true :=
          List.forall_mem_append.mpr ⟨by simpa using solid, by simp [newline]⟩
        rw [← List.singleton_append, ← List.append_assoc, goesOn_append_of_isBlank blank,
          ih, ← goesOn_append_of_isBlank blank rest]
        simp
    · exact goesOn_ended solid blank (by simp [newline]) _

/-! ### What is reported afterwards -/

/-- Whether a line may still take a semicolon is a question about the line: the lines above it end
in a newline, which does not help. -/
theorem mayEnd_line {above : Text} (opened : ∀ c ∈ above.getLast?, c = '\n') (front : Text) :
    mayEnd (above ++ front).reverse = mayEnd front.reverse := by
  have head : ∀ c ∈ above.reverse.head?, c = '\n' := by
    rw [List.head?_reverse]
    exact opened
  rw [List.reverse_append]
  cases front.reverse with
  | nil =>
    cases lines : above.reverse with
    | nil => rfl
    | cons c above =>
      obtain rfl := head c (by simp [lines])
      rfl
  | cons c line =>
    have started (sign : Char) (other : sign ≠ '\n') :
        Text.startsWith (c :: line ++ above.reverse) [sign, sign] =
          Text.startsWith (c :: line) [sign, sign] := by
      apply Text.startsWith_append
      intro d first listed
      obtain rfl := head d first
      simp [other.symm] at listed
    have plus : Text.startsWith (c :: line ++ above.reverse) "++".toList = _ :=
      started '+' (by decide)
    have minus : Text.startsWith (c :: line ++ above.reverse) "--".toList = _ :=
      started '-' (by decide)
    rw [mayEnd_eq, mayEnd_eq, plus, minus]
    rfl

/-- A line that is left alone is judged as before: its text is the same, its mode is, and what
follows goes on as before. -/
theorem isReported_of_kept {found' found : Match} {text' above' above front below' below : Text}
    (kept : Match.Kept (checker.ruleFindings text missing) found' found text' text
      above' above front below' below) :
    isReported text' (above' ++ front) = isReported text (above ++ front) := by
  obtain ⟨oneLine, oneLine'⟩ := List.forall_mem_append.mp kept.ends.isLine.oneLine
  have whole : text = above ++ front ++ (found.body ++ below) := by
    rw [kept.ends.isLine.whole]
    simp
  have whole' : text' = above' ++ front ++ (found.body ++ below') := by
    rw [kept.ends'.isLine.whole, kept.body]
    simp
  have goes : below'.head? = below.head? ∧ goesOn below' = goesOn below := by
    rcases kept.follows with ⟨rfl, rfl⟩ | ⟨rest, rest', rfl, rfl, lines⟩
    · exact ⟨rfl, rfl⟩
    · have newline : ∀ c ∈ ['\n'], isBlank c = true := List.all_eq_true.mp (by decide)
      refine ⟨rfl, ?_⟩
      rw [← List.singleton_append, goesOn_append_of_isBlank newline, goesOn_eq_of_lineByLine lines,
        ← goesOn_append_of_isBlank newline rest]
      rfl
  have finished : isFinished text' (Text.width (above' ++ front)) =
      isFinished text (Text.width (above ++ front)) := by
    rw [whole', whole, isFinished_eq _ oneLine' kept.ends'.isLine.closed,
      isFinished_eq _ oneLine' kept.ends.isLine.closed, goes.2]
  rw [isReported, isReported, mayEnd_line kept.ends'.isLine.opened,
    mayEnd_line kept.ends.isLine.opened, kept.ends'.isLine.lastLine_eq rfl,
    kept.ends.isLine.lastLine_eq rfl, finished]
  cases may : mayEnd front.reverse with
  | false => rfl
  | true =>
    obtain ⟨c, last, -⟩ := last_of_mayEnd may
    obtain ⟨init, rfl⟩ := List.getLast?_eq_some_iff.mp last
    have inCode (above below : Text) :
        endsInCode (above ++ (init ++ [c]) ++ (found.body ++ below)).layout
            (Text.width (above ++ (init ++ [c]))) (Text.width (above ++ (init ++ [c])) - 1) =
          (((Mode.code.after above).after init).showsCode c (found.body ++ below).head? ||
            ((Mode.code.after above).after init).closes c) := by
      have width :
          Text.width (above ++ (init ++ [c])) = Text.width (above ++ init) + c.utf8Size := by
        simp [Nat.add_assoc]
      rw [width, ← Mode.after_append, ← endsInCode_layout (above ++ init) (found.body ++ below) c]
      simp
    have head : (found.body ++ below').head? = (found.body ++ below).head? := by
      rw [List.head?_append, List.head?_append, goes.1]
    rw [whole', whole, inCode, inCode, kept.mode, head]

/-- A line that was given a semicolon is not given another one, because its last character that is
not blank is a semicolon. -/
theorem mayEnd_of_semicolon {front body front' matched : Text}
    (blank : ∀ c ∈ body, among " \t\r" c = true) (blank' : ∀ c ∈ matched, among " \t\r" c = true)
    (same : front ++ body = front' ++ ';' :: matched) : mayEnd front.reverse = false := by
  rw [Bool.eq_false_iff]
  intro may
  obtain ⟨c, last, solid, open'⟩ := last_of_mayEnd may
  obtain ⟨init, rfl⟩ := List.getLast?_eq_some_iff.mp last
  have shown : notAmong " \t\r" c = true := by
    rw [notAmong, Bool.not_eq_true']
    cases blanks : among " \t\r" c with
    | false => rfl
    | true =>
      have listed : among " \t\r\n" c = true :=
        Line.of_among (among " \t\r\n") blanks (by decide)
      rw [listed] at solid
      cases solid
  have ends : Line.lastBut " \t\r" (init ++ [c] ++ body) = some c := by
    rw [Line.lastBut_append, Line.lastBut_eq_none blank, Line.lastBut_append]
    simp [Line.lastBut, shown]
  have ends' : Line.lastBut " \t\r" (front' ++ ';' :: matched) = some ';' := by
    rw [← List.singleton_append, ← List.append_assoc, Line.lastBut_append,
      Line.lastBut_eq_none blank', Line.lastBut_append]
    rfl
  rw [same, ends'] at ends
  obtain rfl := Option.some.inj ends
  cases open'

/-- The rule has nothing to report in a text that it has mended: lines that were changed have their
semicolon, and the others are judged as before. -/
theorem findings?_mend_missing [Engine] (one : checker.catalogue.rules = [missing]) (text : Text) :
    missing.findings? checker.globals.knows (checker.mend text).text = some [] := by
  refine findings?_mend one rfl (.head _) fillsLine_missing text rfl (findings?_missing _)
    (keepsMode checker text) ?_ ?_
  · intro finding member new replaced found above front front' below listed endsLine same
    obtain ⟨left, right, ends⟩ := exists_ends member
    obtain rfl := Option.some.inj (replaced.symm.trans ends.replaced)
    obtain ⟨_, _, _, occurs⟩ := occurs_of_mem_allMatches listed
    have blank := (form_of_fits_missing occurs.fits).1
    rw [endsLine.before, List.reverse_reverse, isReported, mayEnd_line endsLine.isLine.opened,
      mayEnd_of_semicolon blank ends.blank same]
    rfl
  · intro found' found above' above front below' below _ kept reported
    rw [kept.ends'.before, List.reverse_reverse, isReported_of_kept kept] at reported
    rwa [kept.ends.before, List.reverse_reverse]

/-! ### What the semicolons are put between -/

/-- The remedy puts a semicolon in front of the line's blank end. -/
theorem Ends.substitution?_eq (ends : Ends finding text left right) :
    substitution? text finding = some ⟨finding.offset, finding.length, ';' :: finding.matched⟩ :=
  (substitution?_of_pieces ends.whole ends.place ends.length ends.replaced (by simp)).2

/-- A finding of the rule stops within the text. -/
theorem Ends.stop_le (ends : Ends finding text left right) : finding.stop ≤ text.width := by
  rw [ends.whole, Text.width_append, Text.width_append, ends.place, ends.length, Finding.stop]
  exact Nat.le_add_right _ _

/-- Parts that are kept or are semicolons. -/
def Semicolons (parts : Alteration) : Prop :=
  ∀ part ∈ parts, part.isKept = true ∨ part = .added [';']

section Parts

variable {parts : Alteration} (last : Text)

/-- Nothing of the text is dropped when only semicolons are put in, so that every offset can be
followed. -/
theorem keeps_of_lt (semicolons : Semicolons parts) {offset : Nat}
    (inside : offset < parts.before.width) : parts.keeps offset = true := by
  induction parts generalizing offset with
  | nil => exact absurd inside (Nat.not_lt_zero _)
  | cons part parts ih =>
    obtain ⟨kind, semicolons⟩ := List.forall_mem_cons.mp semicolons
    rw [Alteration.keeps]
    split
    · rename_i here
      rcases kind with kept | rfl
      · exact kept
      · exact absurd here (Nat.not_lt_zero _)
    · apply ih semicolons
      rw [Alteration.before_cons, Text.width_append] at inside
      omega

/-- Every semicolon is put into code. -/
theorem codeByte?_of_settled (settled : parts.Settled) {ahead behind : Alteration}
    (split : parts ++ [.kept last] = ahead ++ .added [';'] :: behind) :
    (Alteration.after (parts ++ [.kept last])).codeByte? ahead.after.width = some ';' := by
  have settledAhead : ahead.Settled := by
    intro part member
    rcases List.append_eq_append_iff.mp split with ⟨gap, rfl, tail⟩ | ⟨gap, rfl, -⟩
    · cases gap with
      | nil => exact settled part (by simpa using member)
      | cons other gap => simp at tail
    · exact settled part (List.mem_append_left _ member)
  rw [split, Alteration.after_append]
  refine (Text.codeByte?_width_eq_some_iff _ _ (by decide) (by decide)).mpr ?_
  rw [settledAhead.after_after]
  rfl

end Parts

/-- Findings that follow each other from the back cut a text into parts, with a semicolon behind
each but the last. The induction is on the findings: the last one leaves the others the text in
front of it. -/
theorem exists_parts {findings : List Finding} (ordered : BackToFront findings)
    (each : ∀ finding ∈ findings, ∃ left right, Ends finding text left right) {front rest : Text}
    (whole : text = front ++ rest) (inside : ∀ finding ∈ findings, finding.stop ≤ front.width) :
    ∃ (parts : Alteration) (last : Text), parts.Settled ∧ Semicolons parts ∧
      parts.before ++ last = front ∧
      parts.after ++ last = substitute (substitutions text findings) front ∧
      parts.countP (fun part => !part.isKept) = findings.length ∧
      ∀ finding ∈ findings, ∃ ahead behind : Alteration, parts = ahead ++ .added [';'] :: behind ∧
        ahead.before.width = finding.offset := by
  induction findings generalizing front rest with
  | nil =>
    exact ⟨[], front, Alteration.settled_nil, by simp [Semicolons], rfl,
      (substitute_nil front).symm, rfl, by simp⟩
  | cons finding others ih =>
    obtain ⟨first, ordered⟩ := List.pairwise_cons.mp ordered
    obtain ⟨left, right, ends⟩ := each finding (.head _)
    have cut : text = left ++ (finding.matched ++ right) := by
      rw [← List.append_assoc]
      exact ends.whole
    obtain ⟨parts, last, settled, semicolons, before, after, count, places⟩ :=
      ih ordered (fun other listed => each other (.tail _ listed)) cut
        (fun other listed => ends.place.symm ▸ first other listed)
    have stop : (left ++ finding.matched).width = finding.stop := by
      rw [Text.width_append, ends.place, ends.length, Finding.stop]
    obtain ⟨back, rfl, -⟩ := Text.exists_gap_of_width_le (ends.whole.symm.trans whole)
      (stop.trans_le (inside finding (.head _)))
    have coded : Mode.code.after last = .code := by
      have settledLeft := ends.settled
      rwa [← before, Mode.after_append, settled.after_before] at settledLeft
    refine ⟨parts ++ [.kept last, .added [';']], finding.matched ++ back, ?_, ?_, ?_, ?_, ?_, ?_⟩
    · refine settled.append ?_
      simp only [Alteration.settled_cons, Part.old, Part.new]
      exact ⟨⟨coded, coded⟩, ⟨rfl, by decide⟩, Alteration.settled_nil⟩
    · exact List.forall_mem_append.mpr ⟨semicolons, by simp [Part.isKept]⟩
    · rw [Alteration.before_append, ← before]
      simp [Part.old]
    · rw [Alteration.after_append, substitutions_cons, ends.substitution?_eq, Option.toList_some,
        List.singleton_append, substitute, substituteFrom_cons _ _ 0 left finding.matched back
          (by rw [Nat.zero_add]; exact ends.place.symm) ends.length.symm ?_, ← substitute, ← after]
      · simp [Part.new]
      · intro other listed
        obtain ⟨finding', listed', same⟩ := stop_of_mem_substitutions listed
        rw [same]
        exact first finding' listed'
    · rw [List.countP_append, count]
      rfl
    · intro other listed
      rcases List.mem_cons.mp listed with rfl | listed
      · refine ⟨parts ++ [.kept last], [], by simp, ?_⟩
        rw [Alteration.before_append, ← ends.place, ← before]
        simp [Part.old]
      · obtain ⟨ahead, behind, rfl, place⟩ := places other listed
        exact ⟨ahead, behind ++ [.kept last, .added [';']], by simp, place⟩

/-- One pass cuts the text into such parts, with a semicolon in each place that is reported. -/
theorem exists_parts_mend (one : checker.catalogue.rules = [missing]) (text : Text) :
    ∃ (parts : Alteration) (last : Text), parts.Settled ∧ Semicolons parts ∧
      parts.before ++ last = text ∧ parts.after ++ last = (checker.mend text).text ∧
      parts.countP (fun part => !part.isKept) = (checker.ruleFindings text missing).length ∧
      ∀ finding ∈ checker.ruleFindings text missing, ∃ ahead behind : Alteration,
        parts = ahead ++ .added [';'] :: behind ∧ ahead.before.width = finding.offset := by
  have free : (checker.ruleFindings text missing).Pairwise fun finding later =>
      conflicts finding later = false :=
    (checker.pairwise_ruleFindings text missing).imp And.right
  have ordered := backToFront_mergeSort (checker.ruleFindings text missing)
  rw [accept_eq_self free] at ordered
  have each : ∀ finding ∈ (checker.ruleFindings text missing).mergeSort comesFirst,
      ∃ left right, Ends finding text left right :=
    fun finding listed => exists_ends (List.mem_mergeSort.mp listed)
  obtain ⟨parts, last, settled, semicolons, before, after, count, places⟩ :=
    exists_parts ordered each (List.append_nil text).symm fun finding listed => by
      obtain ⟨left, right, ends⟩ := each finding listed
      exact ends.stop_le
  refine ⟨parts, last, settled, semicolons, before, ?_, ?_, ?_⟩
  · rw [mend_of_one one rfl text, after]
    exact substitute_mergeSort text _ free
  · rw [count, List.length_mergeSort]
  · exact fun finding listed => places finding (List.mem_mergeSort.mpr listed)

/-- With no other rule, one pass puts a semicolon in each place that is reported. Each of them is
code, every byte of the text is what it was, and afterwards there is nothing to report. -/
theorem mend_ends_statements [Engine] (parse : Text → Verdict) (globals : Globals) (text : Text) :
    let checker := keeping (fun rule => rule.id == missing.id) parse globals
    let findings := checker.ruleFindings text missing
    let report := checker.mend text
    report.applied = findings.length ∧ report.skippedOverlap = 0 ∧ report.skippedStale = 0 ∧
      (∃ parts : Alteration, parts.before = text ∧ parts.after = report.text ∧
        Semicolons parts ∧ parts.countP (fun part => !part.isKept) = findings.length ∧
        (∀ finding ∈ findings, ∃ ahead behind : Alteration,
          parts = ahead ++ .added [';'] :: behind ∧ ahead.before.width = finding.offset) ∧
        (∀ ahead behind : Alteration, parts = ahead ++ .added [';'] :: behind →
          report.text.codeByte? ahead.after.width = some ';') ∧
        ∀ offset < text.width, parts.keeps offset = true ∧
          report.text.layout.kindAt? (parts.moved offset) = text.layout.kindAt? offset) ∧
      missing.findings? globals.knows report.text = some [] := by
  intro checker findings report
  have one : checker.catalogue.rules = [missing] := rfl
  have mended := mend_of_one one rfl text
  have accepted := accepted_of_one one rfl text
  refine ⟨?_, congrArg Report.skippedOverlap mended, ?_, ?_, findings?_mend_missing one text⟩
  · exact (applied_mend text).trans (congrArg List.length accepted)
  · have fresh : (checker.accepted text).countP (isStale text) = 0 := countP_isStale_accepted text
    rw [accepted] at fresh
    exact (congrArg Report.skippedStale mended).trans fresh
  · obtain ⟨parts, last, settled, semicolons, before, after, count, places⟩ :=
      exists_parts_mend one text
    have before' : Alteration.before (parts ++ [.kept last]) = text := by
      rw [Alteration.before_append, ← before]
      simp [Part.old]
    have after' : Alteration.after (parts ++ [.kept last]) = report.text := by
      rw [Alteration.after_append]
      simpa [Part.new] using after
    have semicolons' : Semicolons (parts ++ [.kept last]) :=
      List.forall_mem_append.mpr ⟨semicolons, by simp [Part.isKept]⟩
    refine ⟨parts ++ [.kept last], before', after', semicolons', ?_, ?_, ?_, ?_⟩
    · rw [List.countP_append, count]
      rfl
    · intro finding listed
      obtain ⟨ahead, behind, rfl, place⟩ := places finding listed
      exact ⟨ahead, behind ++ [.kept last], by simp, place⟩
    · intro ahead behind split
      rw [← after']
      exact codeByte?_of_settled last settled split
    · intro offset inside
      have kept := keeps_of_lt semicolons' (before'.symm ▸ inside)
      have seamless : Alteration.Seamless (parts ++ [.kept last]) :=
        settled.seamless_append ⟨.inl rfl, .inl rfl, trivial⟩
      have kind := Alteration.kindAt?_moved seamless kept
      rw [before', after'] at kind
      exact ⟨kept, kind⟩

/-- A statement that ends in a literal, one that ends in an update, and one that goes on. -/
theorem mend_ends_statements_behind_literal :
    let _ : Engine := .unlimited
    let checker := keeping (fun rule => rule.id == missing.id) (fun _ => .accepted) .builtin
    let text : Text := "x = 'é' \r\n  i++\ny = 1\n  + 2".toList
    let report := checker.mend text
    report.text = "x = 'é'; \r\n  i++;\ny = 1\n  + 2".toList ∧
      (∃ finding ∈ checker.ruleFindings text missing, finding.offset = 8 ∧
        ∃ parts : Alteration, parts.before = text ∧ parts.after = report.text ∧
          (∃ ahead behind : Alteration, parts = ahead ++ .added [';'] :: behind ∧
            ahead.before.width = finding.offset ∧
            report.text.codeByte? ahead.after.width = some ';') ∧
          parts.keeps 7 = true ∧
          report.text.layout.kindAt? (parts.moved 7) = text.layout.kindAt? 7) ∧
      missing.findings? Globals.builtin.knows report.text = some [] := by
  intro _ checker text report
  obtain ⟨-, -, -, ⟨parts, before, after, -, -, places, codes, kinds⟩, nothing⟩ :=
    mend_ends_statements (fun _ => .accepted) .builtin text
  obtain ⟨finding, member, offset⟩ : ∃ finding ∈ checker.ruleFindings text missing,
      (finding.offset == 8) = true := List.any_eq_true.mp (by decide +kernel)
  obtain ⟨ahead, behind, split, place⟩ := places finding member
  obtain ⟨kept, kind⟩ := kinds 7 (by decide)
  have mended : report.text = "x = 'é'; \r\n  i++;\ny = 1\n  + 2".toList := by
    rw [congrArg Report.text (mend_of_one rfl rfl text)]
    decide +kernel
  exact ⟨mended, ⟨finding, member, beq_iff_eq.mp offset, parts, before, after,
    ⟨ahead, behind, split, place, codes ahead behind split⟩, kept, kind⟩, nothing⟩

end Semicolon

end ScriptCheck
