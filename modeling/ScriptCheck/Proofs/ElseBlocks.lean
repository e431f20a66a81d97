import ScriptCheck.Proofs.LineRules
import ScriptCheck.Proofs.WrappedBodies

/-!
# Blocks behind `else`

The remedy for a bare `else` puts braces around its body. The body is read behind a blank, so
that it is read in the text as it is read alone: the braces are a pair of code, and all other
pairs are as before. Behind the last brace nothing but blanks follows on the line. Whatever is
taken for the body of an `else` on that line afterwards runs up to this brace and is left alone,
so that one pass leaves nothing to report.
-/

namespace ScriptCheck.Block

open Pattern Phrase Alteration Checker Repair

variable {checker : Checker} {finding : Finding}
  {text left gap body blanks final trailing right : Text}

/-! ### The block in its text -/

/-- How the remedy of a finding wraps the body of an `else`. It keeps the body, drops the blanks
around it, and adds braces and maybe a semicolon. -/
structure WrapsElse (finding : Finding) (text left gap body blanks final trailing right : Text) :
    Prop where
  whole : text = left ++ finding.matched ++ right
  place : left.width = finding.offset
  matched_eq : finding.matched = "else".toList ++ gap ++ (body ++ blanks) ++ trailing
  replaced : finding.replacement? = some ("else".toList ++ " \x7b ".toList ++ body ++
    (final ++ " \x7d".toList) ++ trailing)
  blank : ∀ c ∈ gap ++ blanks, isBlank c = true
  ending : final = [] ∨ final = [';']

/-- The parts of a text in front of the body. -/
def elseHead (left gap : Text) : Alteration := [.kept (left ++ "else".toList), .dropped gap]

/-- An `else` whose body is wrapped, and how the text is read around it. -/
structure ElseSite (finding : Finding) (text left gap body blanks final trailing right : Text) :
    Prop extends WrapsElse finding text left gap body blanks final trailing right where
  length : finding.matched.width = finding.length
  inside : (Mode.code.after left).inCode = true
  plain : ∀ c ∈ gap, Mode.isPlain c = true
  bare : Bare body blanks final (trailing ++ right)
  trails : ∀ c ∈ trailing, among " \t\r" c = true

/-- The rule reports the matches judged to be bare alternatives. -/
theorem findings?_bareElse (known : Text → Bool) (text : Text) :
    bareElse.findings? known text =
      some (((bareElse.pattern.allMatches text).filter fun found =>
        isReported ⟨text, text.layout, known, found⟩).map (bareElse.finding text)) :=
  Rule.findings?_of_decides rfl fun found _ =>
    decides_isBareElse (fun _ => false) ⟨text, text.layout, known, found⟩

/-- Each finding of the rule has such a body. The pattern gives its keyword and its parts, and the
check that it is bare and in code. -/
theorem exists_elseSite (member : finding ∈ checker.ruleFindings text bareElse) :
    ∃ left gap body blanks final trailing right,
      ElseSite finding text left gap body blanks final trailing right := by
  rw [ruleFindings, findings?_bareElse] at member
  obtain ⟨found, listed, rfl⟩ := List.mem_map.mp member
  obtain ⟨listed, reported⟩ := List.mem_filter.mp listed
  obtain ⟨left, right, captures, occurs⟩ := occurs_of_mem_allMatches listed
  obtain ⟨gap, statement, trailing, form, -, blank, isBody, group₁, group₂⟩ :=
    form_of_fits_elsePattern occurs.fits
  have texts (number : Nat) (positive : 0 < number) (counted : number ≤ 2) :=
    groupText?_of_occurs occurs positive counted
  obtain ⟨piece, group, taken⟩ := group?_of_occurs occurs (by decide) (by decide) group₁
  simp only [isReported, group, Option.any_some, taken, Bool.and_eq_true] at reported
  obtain ⟨⟨-, inCode⟩, wrappable⟩ := reported
  obtain ⟨body, blanks, final, trimmed, ended_eq, bare⟩ := exists_bare isBody wrappable
  refine ⟨left, gap, body, blanks, final, trailing, right, ?_⟩
  exact {
    whole := occurs.whole
    place := occurs.start_eq.symm
    length := occurs.width_eq.symm
    matched_eq := by
      show found.body = _
      rw [form, ← trimmed]
      simp
    replaced := by
      show wrapElse found.body found.texts = _
      simp only [wrapElse, texts 1 (by decide) (by decide), texts 2 (by decide) (by decide),
        group₁, group₂]
      simp [wrapped, ended_eq]
    blank := List.forall_mem_append.mpr ⟨(blank_of_gap blank).1, bare.blank⟩
    ending := bare.ending
    plain := (blank_of_gap blank).2
    bare := bare
    trails := isBody.blank
    inside := by
      have whole :
          text = left ++ 'e' :: ("lse".toList ++ gap ++ (statement ++ trailing) ++ right) := by
        rw [occurs.whole, form]
        simp
      rw [occurs.start_eq] at inCode
      exact (Text.layout_inCode_eq whole rfl).symm.trans inCode }

namespace ElseSite

variable (site : ElseSite finding text left gap body blanks final trailing right)

include site

/-- With what is dropped, the parts make up the text as it was. -/
theorem before_eq :
    (framedParts (elseHead left gap) body blanks final (trailing ++ right)).before = text := by
  simp [framedParts, elseHead, blockParts, Part.old, site.whole, site.matched_eq]

/-- With what is put in, the parts make up the mended text. -/
theorem after_eq :
    (framedParts (elseHead left gap) body blanks final (trailing ++ right)).after =
      (run text [finding]).text := by
  rw [text_run_singleton site.whole site.place site.length site.replaced]
  simp [framedParts, elseHead, blockParts, Part.new]

/-- Behind the keyword the text is in code. -/
theorem after_keyword : Mode.code.after (left ++ "else".toList) = .code := by
  rw [Mode.after_append]
  exact Mode.after_of_inCode site.inside (by simp) (List.all_eq_true.mp (by decide))

/-- The body of an alternative can be put into braces. -/
theorem frame : Frame (elseHead left gap) body blanks final (trailing ++ right) := by
  refine ⟨site.bare, ?_, fun kind => ?_⟩
  · simp only [elseHead, settled_cons, Part.old, Part.new]
    exact ⟨⟨site.after_keyword, site.after_keyword⟩,
      ⟨Mode.code_after_of_isPlain site.plain, rfl⟩, settled_nil⟩
  · have silent : ∀ c ∈ gap, kind.isSide c = false := fun c listed =>
      isSide_of_isBlank kind (site.blank c (List.mem_append_left _ listed))
    simpa [elseHead] using silent

/-- The line is in code to its end, before and afterwards. The braces and the semicolon that come in
are plain characters of code. -/
theorem inCode_after :
    (Mode.code.after (left ++ finding.matched)).inCode = true ∧
      Mode.code.after (left ++ ("else".toList ++ " \x7b ".toList ++ body ++
        (final ++ " \x7d".toList) ++ trailing)) = .code := by
  have keyword := site.after_keyword
  have trails : ∀ c ∈ trailing, Mode.isPlain c = true :=
    fun c listed => (Line.of_blank (site.trails c listed)).2.1
  have ended : ∀ c ∈ final ++ " \x7d".toList, Mode.isPlain c = true := by
    rcases site.ending with rfl | rfl <;> exact List.all_eq_true.mp (by decide)
  have opened : Mode.code.after " \x7b ".toList = .code := rfl
  simp only [Mode.after_append] at keyword
  constructor
  · rw [site.matched_eq]
    simp only [Mode.after_append, keyword, Mode.code_after_of_isPlain site.plain]
    rw [Mode.inCode_after ((Mode.proper_code_after _).after _) trails,
      Mode.inCode_after (Mode.proper_code_after _) site.bare.plain]
    exact site.bare.open'
  · have closed : ((Mode.code.after body).after final).after " \x7d".toList = .code := by
      rw [← Mode.after_append]
      exact Mode.after_of_inCode site.bare.open' (by simp) ended
    simp only [Mode.after_append, keyword, opened, closed, Mode.code_after_of_isPlain trails]

end ElseSite

/-! ### What is reported afterwards -/

/-- The pattern of the rule matches to the end of a line. -/
theorem fillsLine_elsePattern : elsePattern.FillsLine := by
  intro before body after captures fits
  obtain ⟨gap, statement, trailing, rfl, -, blank, isBody, -, -⟩ := form_of_fits_elsePattern fits
  refine ⟨?_, isBody.ending⟩
  simp only [List.forall_mem_append]
  exact ⟨⟨by simp, oneLine_of_among blank⟩, isBody.oneLine,
    fun c listed => (Line.of_blank (isBody.blank c listed)).2.2⟩

/-- A line is left in code, with or without a block, so that the lines below it are read as they
were. -/
theorem keepsMode (checker : Checker) (text : Text) :
    Text.KeepsMode (EditsLine text (checker.ruleFindings text bareElse)) := by
  have newline {mode : Mode} (inside : mode.inCode = true) : mode.step '\n' = .code := by
    cases mode <;> first | rfl | cases inside
  intro above line below new edits
  rcases edits.edit with ⟨rfl, -⟩ | ⟨finding, member, front, replaced, place, split, given, rfl⟩
  · rfl
  · obtain ⟨left, gap, body, blanks, final, trailing, right, site⟩ := exists_elseSite member
    obtain rfl := edits.left_eq site.whole site.place place split
    obtain rfl := Option.some.inj (given.symm.trans site.replaced)
    obtain ⟨before, after⟩ := site.inCode_after
    rw [split, ← Mode.after_append, ← Mode.after_append, ← List.append_assoc above front,
      ← List.append_assoc above front, newline before, after]
    rfl

/-- A line that is left alone is judged as before: its body is the same, and it starts in the same
mode. -/
theorem isReported_of_kept {known : Text → Bool} {findings : List Finding} {found' found : Match}
    {text' above' above front below' below : Text}
    (listed : found' ∈ elsePattern.allMatches text')
    (kept : Match.Kept findings found' found text' text above' above front below' below) :
    isReported ⟨text', text'.layout, known, found'⟩ =
      isReported ⟨text, text.layout, known, found⟩ := by
  obtain ⟨_, _, _, occurs⟩ := occurs_of_mem_allMatches listed
  obtain ⟨gap, statement, trailing, form, -⟩ := form_of_fits_elsePattern occurs.fits
  obtain ⟨rest, body'⟩ : ∃ rest, found'.body = 'e' :: rest := ⟨_, by rw [form]; rfl⟩
  have body : found.body = 'e' :: rest := kept.body.symm.trans body'
  have inCode {text above below : Text} {found : Match}
      (ends : found.EndsLine text above front below) (body : found.body = 'e' :: rest) :
      text.layout.inCode found.start = ((Mode.code.after above).after front).inCode := by
    have start : found.start = (above ++ front).width := by
      show found.whole.start.offset = _
      rw [found.whole.start.placed, ends.before, Text.width_reverse]
    have whole : text = above ++ front ++ 'e' :: (rest ++ below) := by
      rw [ends.isLine.whole, body]
      simp
    rw [start, whole, Text.inCode_layout, Mode.showsCode_of_isPlain (by decide),
      Mode.after_append]
  have group := kept.groups 1
  simp only [isReported, inCode kept.ends' body', inCode kept.ends body, kept.mode]
  cases taken : found.group? 1 with
  | none =>
    rw [taken] at group
    rw [Option.map_eq_none_iff.mp group]
  | some piece =>
    rw [taken] at group
    obtain ⟨piece', taken', same⟩ := Option.map_eq_some_iff.mp group
    rw [taken', Option.any_some, Option.any_some, same]

/-- The body of an `else` on a line with a block at its end is left alone. -/
theorem isReported_of_block {known : Text → Bool} {found : Match} {front new : Text}
    (listed : found ∈ elsePattern.allMatches text)
    (trails : ∀ c ∈ trailing, among " \t\r" c = true)
    (same : front ++ found.body = new ++ " \x7d".toList ++ trailing) :
    isReported ⟨text, text.layout, known, found⟩ = false := by
  obtain ⟨_, _, _, occurs⟩ := occurs_of_mem_allMatches listed
  obtain ⟨gap, statement, blanks, form, -, -, isBody, group, -⟩ :=
    form_of_fits_elsePattern occurs.fits
  obtain ⟨piece, taken, rfl⟩ := group?_of_occurs occurs (by decide) (by decide) group
  -- the last character of the line that is no blank is one of the body
  obtain ⟨c, inBody, last⟩ : ∃ c ∈ piece.body, Line.lastBut " \t\r" piece.body = some c := by
    obtain ⟨c, inBody, solid⟩ := isBody.solid
    refine Line.exists_lastBut ⟨c, inBody, Bool.eq_false_iff.mpr fun blank => ?_⟩
    have listed : among "; \t\r" c = true := Line.of_among (among "; \t\r") blank (by decide)
    rw [listed] at solid
    cases solid
  have ends : Line.lastBut " \t\r" (front ++ found.body) = some c := by
    rw [form, Line.lastBut_append, Line.lastBut_append, Line.lastBut_append,
      Line.lastBut_eq_none isBody.blank, last]
    rfl
  have ends' : Line.lastBut " \t\r" (new ++ " \x7d".toList ++ trailing) = some '\x7d' := by
    rw [Line.lastBut_append, Line.lastBut_append, Line.lastBut_eq_none trails]
    rfl
  rw [same, ends'] at ends
  obtain rfl := Option.some.inj ends
  rw [isReported, taken, Option.any_some, Bool.eq_false_iff]
  intro reported
  obtain ⟨⟨-, unbraced, -⟩, -⟩ :=
    (isWrappable_iff piece.body).mp (Bool.and_eq_true_iff.mp reported).2
  exact List.any_eq_false.mp unbraced _ inBody (by decide)

/-- The rule has nothing to report in a text that it has mended. -/
theorem findings?_mend_bareElse [Engine] (one : checker.catalogue.rules = [bareElse])
    (text : Text) :
    bareElse.findings? checker.globals.knows (checker.mend text).text = some [] := by
  refine findings?_mend one rfl (.tail _ (.tail _ (.head _))) fillsLine_elsePattern text rfl
    (findings?_bareElse _) (keepsMode checker text) ?_ ?_
  · intro finding member new replaced found above front front' below listed ends same
    obtain ⟨left, gap, body, blanks, final, trailing, right, site⟩ := exists_elseSite member
    obtain rfl := Option.some.inj (replaced.symm.trans site.replaced)
    rw [← List.append_assoc, ← List.append_assoc, ← List.append_assoc] at same
    exact isReported_of_block listed site.trails same
  · intro found' found above' above front below' below listed kept reported
    rwa [isReported_of_kept listed kept] at reported

/-- Wrapping the body of an `else` puts a pair of braces into the code of the text, and its other
pairs are those of the text, at their new places. With no other rule, one pass leaves nothing to
report. -/
theorem else_braces_pair [Engine] (parse : Text → Verdict) (globals : Globals) (text : Text) :
    let checker := keeping (fun rule => rule.id == bareElse.id) parse globals
    (∀ finding ∈ checker.ruleFindings text bareElse,
      ∃ left gap body blanks final trailing right,
        WrapsElse finding text left gap body blanks final trailing right ∧
        let parts := framedParts (elseHead left gap) body blanks final (trailing ++ right)
        let mended := (run text [finding]).text
        let opened := (left ++ "else ".toList).width
        let closed := (left ++ "else \x7b ".toList ++ body ++ final ++ [' ']).width
        parts.before = text ∧ parts.after = mended ∧
        mended.codeByte? opened = some '\x7b' ∧ mended.codeByte? closed = some '\x7d' ∧
        mended.layout.matchingClose? opened = some closed ∧
        (∀ opened' closed', text.layout.matchingClose? opened' = some closed' →
          parts.keeps opened' = true ∧ parts.keeps closed' = true ∧
            mended.layout.matchingClose? (parts.moved opened') = some (parts.moved closed')) ∧
        ∀ opened' closed', mended.layout.matchingClose? opened' = some closed' →
          (opened' = opened ∧ closed' = closed) ∨
            ∃ old old', text.layout.matchingClose? old = some old' ∧
              parts.moved old = opened' ∧ parts.moved old' = closed') ∧
      bareElse.findings? globals.knows (checker.mend text).text = some [] := by
  intro checker
  refine ⟨?_, findings?_mend_bareElse rfl text⟩
  intro finding member
  obtain ⟨left, gap, body, blanks, final, trailing, right, site⟩ := exists_elseSite member
  refine ⟨left, gap, body, blanks, final, trailing, right, site.toWrapsElse, ?_⟩
  intro parts mended opened closed
  have head : (elseHead left gap).after = left ++ "else".toList := by simp [elseHead, Part.new]
  have opened_eq : (elseHead left gap).after.width + 1 = opened := by
    have widths : Text.width "else".toList = 4 ∧ Text.width "else ".toList = 5 := ⟨rfl, rfl⟩
    simp only [opened, head, Text.width_append, widths]
  have closed_eq : (elseHead left gap).after.width + 3 + body.width + final.width + 1 = closed := by
    have widths : Text.width "else".toList = 4 ∧ Text.width "else \x7b ".toList = 7 ∧
      Text.width [' '] = 1 := ⟨rfl, rfl, rfl⟩
    simp only [closed, head, Text.width_append, widths]
  have together := site.frame.matchingClose?_iff
  simp only [opened_eq, closed_eq, site.before_eq, site.after_eq] at together
  exact ⟨site.before_eq, site.after_eq, together⟩

/-- A block in front of the `else`, with a brace in a literal. The braces that were there keep their
partners, and the new ones go together. -/
theorem else_braces_pair_behind_block :
    let _ : Engine := .unlimited
    let checker := keeping (fun rule => rule.id == bareElse.id) (fun _ => .accepted) .builtin
    let text : Text := "if (a) \x7b f('\x7d') \x7d else  g([1])".toList
    (∃ finding ∈ checker.ruleFindings text bareElse,
      ∃ left gap body blanks final trailing right,
        WrapsElse finding text left gap body blanks final trailing right ∧
        let parts := framedParts (elseHead left gap) body blanks final (trailing ++ right)
        let mended := (run text [finding]).text
        mended.layout.matchingClose? (left ++ "else ".toList).width =
          some (left ++ "else \x7b ".toList ++ body ++ final ++ [' ']).width ∧
        text.layout.matchingClose? 7 = some 16 ∧
        mended.layout.matchingClose? (parts.moved 7) = some (parts.moved 16)) ∧
      bareElse.findings? Globals.builtin.knows (checker.mend text).text = some [] := by
  intro _ checker text
  obtain ⟨wraps, nothing⟩ := else_braces_pair (fun _ => .accepted) .builtin text
  obtain ⟨finding, member, -⟩ : ∃ finding ∈ checker.ruleFindings text bareElse,
      (finding.offset == 18) = true := List.any_eq_true.mp (by decide +kernel)
  obtain ⟨left, gap, body, blanks, final, trailing, right, isWrapped, -, -, -, -, together, others,
    -⟩ := wraps finding member
  have pair : text.layout.matchingClose? 7 = some 16 := by decide +kernel
  exact ⟨⟨finding, member, left, gap, body, blanks, final, trailing, right, isWrapped, together,
    pair, (others 7 16 pair).2.2⟩, nothing⟩

end ScriptCheck.Block
