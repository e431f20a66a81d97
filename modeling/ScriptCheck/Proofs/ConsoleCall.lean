import ScriptCheck.Proofs.CodeView
import ScriptCheck.Proofs.Matching

/-!
# Console calls left open

A console call is reported by the bracket pairs of the whole text and mended by a count
over its own line. The two scans agree: a parenthesis that the text never closes is
still open at the end of its line, whatever else the line opens and closes, and the line
alone is read in the modes of the whole text. So the count is never zero, and the
closers go behind the last code of the line, where they are code themselves.
-/

namespace ScriptCheck

namespace Bracket

/-- Pairs in a front come first, and what it leaves open is there for the rest. The induction is on
the front. -/
theorem pairsFrom_append (kind : Bracket) (stack : List Nat) (front rest : List (Nat × Char)) :
    kind.pairsFrom stack (front ++ rest) =
      kind.pairsFrom stack front ++ kind.pairsFrom (kind.unclosedFrom stack front) rest := by
  induction front generalizing stack with
  | nil => rfl
  | cons entry front ih =>
    obtain ⟨offset, c⟩ := entry
    simp only [List.cons_append, pairsFrom, unclosedFrom]
    split
    · exact ih _
    · split
      · cases stack with
        | nil => exact ih _
        | cons opened outer => simp [ih]
      · exact ih _

/-- What a front leaves open is there for the rest. -/
theorem unclosedFrom_append (kind : Bracket) (stack : List Nat) (front rest : List (Nat × Char)) :
    kind.unclosedFrom stack (front ++ rest) =
      kind.unclosedFrom (kind.unclosedFrom stack front) rest := by
  induction front generalizing stack with
  | nil => rfl
  | cons placed front ih =>
    simp only [List.cons_append, unclosedFrom, ih]
    split
    · rfl
    · split <;> rfl

end Bracket

namespace Delimiter

open Pattern Phrase

/-- The two parentheses. -/
def isParen (c : Char) : Bool := c == '(' || c == ')'

/-- The brackets of parentheses are the two parentheses. -/
theorem isSide_paren : Bracket.paren.isSide = isParen := rfl

/-- A parenthesis is a plain character. -/
theorem isPlain_of_isParen (c : Char) (paren : isParen c = true) : Mode.isPlain c = true :=
  @Bracket.isPlain_of_isSide .paren c paren

/-- The number of parentheses a text leaves open, read from a mode and with some open
already. -/
def parenDepth (mode : Mode) (depth : Nat) (text : Text) : Nat :=
  openParens depth (mode.visible isParen 0 text)

/-- The open parentheses are counted part by part. -/
theorem openParens_append (depth : Nat) (front rest : List (Nat × Char)) :
    openParens depth (front ++ rest) = openParens (openParens depth front) rest := by
  induction front generalizing depth with
  | nil => rfl
  | cons entry front ih => exact ih _

/-- Only parentheses count. -/
theorem openParens_filter (depth : Nat) (chars : List (Nat × Char)) :
    openParens depth (chars.filter fun (_, c) => isParen c) = openParens depth chars := by
  induction chars generalizing depth with
  | nil => rfl
  | cons entry rest ih =>
    obtain ⟨offset, c⟩ := entry
    by_cases paren : isParen c = true
    · simp [paren, openParens, ih]
    · have other : c ≠ '(' ∧ c ≠ ')' := by simpa [isParen] using paren
      simp [paren, openParens, ih, other]

/-- The offsets of the parentheses do not matter: the count is the same for lists with the same
characters. -/
theorem openParens_congr (depth : Nat) {chars chars' : List (Nat × Char)}
    (same : chars.map Prod.snd = chars'.map Prod.snd) :
    openParens depth chars = openParens depth chars' := by
  induction chars generalizing depth chars' with
  | nil =>
    obtain rfl : chars' = [] := by simpa using same.symm
    rfl
  | cons entry rest ih =>
    cases chars' with
    | nil => simp at same
    | cons entry' rest' =>
      obtain ⟨offset, c⟩ := entry
      obtain ⟨offset', c'⟩ := entry'
      obtain ⟨rfl, same'⟩ : c = c' ∧ rest.map Prod.snd = rest'.map Prod.snd := by simpa using same
      exact ih _ same'

/-- The count over the code of a text. -/
theorem openParens_codeChars (depth : Nat) (text : Text) :
    openParens depth text.codeChars = parenDepth .code depth text := by
  rw [parenDepth, Text.codeChars_eq_scan, ← openParens_filter,
    Mode.filter_scan isPlain_of_isParen]

/-- The parts of a text are counted one after the other. -/
theorem parenDepth_append (mode : Mode) (depth : Nat) (front rest : Text) :
    parenDepth mode depth (front ++ rest) =
      parenDepth (mode.after front) (parenDepth mode depth front) rest := by
  rw [parenDepth, Mode.visible_append, openParens_append]
  exact openParens_congr _ (Mode.map_snd_visible _ _ _)

variable {mode : Mode} {text rest code trailing : Text} {c : Char} {segment : Segment}

/-- In code, a text that does not go on with a comment mark is counted as on its own. -/
theorem parenDepth_of_inCode (inside : mode.inCode = true)
    (head : ∀ c ∈ text.head?, c ≠ '/' ∧ c ≠ '*') (depth : Nat) :
    parenDepth mode depth text = parenDepth .code depth text := by
  rw [parenDepth, Mode.visible_of_resumes inside (Mode.resumes_of_inCode inside head), parenDepth]

/-- A text that shows no parenthesis leaves the count as it is. -/
theorem parenDepth_of_visible (none : mode.visible isParen 0 text = []) (depth : Nat) :
    parenDepth mode depth text = depth := by
  rw [parenDepth, none]
  rfl

/-- A text without parentheses leaves the count as it is. -/
theorem parenDepth_of_absent (absent : ∀ c ∈ text, isParen c = false) (mode : Mode) (depth : Nat) :
    parenDepth mode depth text = depth :=
  parenDepth_of_visible (Mode.visible_eq_nil 0 absent) depth

/-- A parenthesis that is never closed keeps the count above what was open in front of
it. The induction is on what follows the parenthesis; `above` are the parentheses opened
since and still open. -/
theorem openParens_of_unclosed (opened : Nat) (above outer : List Nat) (chars : List (Nat × Char))
    (unclosed : ∀ closed,
      (opened, closed) ∉ Bracket.paren.pairsFrom (above ++ opened :: outer) chars)
    (base : Nat) :
    openParens (base + (above.length + 1)) chars = base + openParens (above.length + 1) chars ∧
      1 ≤ openParens (above.length + 1) chars := by
  induction chars generalizing above with
  | nil => simp [openParens]
  | cons entry rest ih =>
    obtain ⟨offset, c⟩ := entry
    by_cases opens : c = '('
    · have unclosed' : ∀ closed, (opened, closed) ∉
          Bracket.paren.pairsFrom ((offset :: above) ++ opened :: outer) rest := by
        simpa [Bracket.pairsFrom, Bracket.opener, opens] using unclosed
      simpa [openParens, opens, Nat.add_assoc] using ih (offset :: above) unclosed'
    · by_cases closes : c = ')'
      · cases above with
        | nil =>
          exact absurd (by simp [Bracket.pairsFrom, Bracket.opener, Bracket.closer, closes])
            (unclosed offset)
        | cons inner above =>
          have unclosed' : ∀ closed, (opened, closed) ∉
              Bracket.paren.pairsFrom (above ++ opened :: outer) rest := by
            intro closed member
            exact unclosed closed (by
              simp [Bracket.pairsFrom, Bracket.opener, Bracket.closer, closes, member])
          have step := ih above unclosed'
          have less : base + (above.length + 1 + 1) - 1 = base + (above.length + 1) := by omega
          simpa [openParens, closes, less] using step
      · have unclosed' : ∀ closed, (opened, closed) ∉
            Bracket.paren.pairsFrom (above ++ opened :: outer) rest := by
          simpa [Bracket.pairsFrom, Bracket.opener, Bracket.closer, opens, closes] using unclosed
        simpa [openParens, opens, closes] using ih above unclosed'

/-- The parentheses up to the end of a call: those in front of it, its own, and those behind
that on the line. -/
theorem visible_call {left head : Text} (inside : (Mode.code.after left).inCode = true)
    (present : head ≠ []) (plain : ∀ c ∈ head, Mode.isPlain c = true ∧ isParen c = false)
    (rest : Text) :
    Mode.code.visible isParen 0 (left ++ (head ++ '(' :: rest)) =
      Mode.code.visible isParen 0 left ++ (left.width + head.width, '(') ::
        Mode.code.visible isParen (left.width + head.width + 1) rest := by
  have headMode : (Mode.code.after left).after head = .code :=
    Mode.after_of_inCode inside present fun c listed => (plain c listed).1
  have headParens (offset : Nat) : (Mode.code.after left).visible isParen offset head = [] :=
    Mode.visible_eq_nil offset fun c listed => (plain c listed).2
  rw [Mode.visible_append, Mode.visible_append, headParens, headMode, List.nil_append,
    Mode.visible, Nat.zero_add]
  rfl

/-- A parenthesis in code that the whole text does not close is open on its line, on top
of all that was open in front of it. `head` is what stands between the start of the call
and the parenthesis, and `rest` what follows on the line. -/
theorem parenDepth_of_matchingClose? {left head right : Text}
    (inside : (Mode.code.after left).inCode = true) (present : head ≠ [])
    (plain : ∀ c ∈ head, Mode.isPlain c = true ∧ isParen c = false)
    (unclosed : (left ++ (head ++ '(' :: rest) ++ right).layout.matchingClose?
      (left.width + head.width) = none) (base : Nat) :
    parenDepth .code (base + 1) rest = base + parenDepth .code 1 rest ∧
      1 ≤ parenDepth .code 1 rest := by
  obtain ⟨front, back, shown⟩ : ∃ front back,
      Mode.code.visible isParen 0 (left ++ (head ++ '(' :: rest) ++ right) =
        front ++ ((left.width + head.width, '(') ::
          Mode.code.visible isParen (left.width + head.width + 1) rest) ++ back := by
    refine ⟨Mode.code.visible isParen 0 left,
      (Mode.code.after (left ++ (head ++ '(' :: rest))).visible isParen
        (0 + Text.width (left ++ (head ++ '(' :: rest))) right, ?_⟩
    rw [Mode.visible_append, visible_call inside present plain]
  have apart : ∀ closed, (left.width + head.width, closed) ∉ Bracket.paren.pairs
      (left ++ (head ++ '(' :: rest) ++ right).codeChars := by
    intro closed member
    have absent := List.lookup_eq_none_iff.mp unclosed (left.width + head.width, closed)
      (List.mem_append.mpr (.inl (List.mem_append.mpr (.inr member))))
    simp at absent
  have unclosed' : ∀ closed, (left.width + head.width, closed) ∉ Bracket.paren.pairsFrom
      ((left.width + head.width) :: Bracket.paren.unclosedFrom [] front)
      (Mode.code.visible isParen (left.width + head.width + 1) rest) := by
    intro closed member
    refine apart closed ?_
    rw [Bracket.pairs_codeChars, isSide_paren, shown, Bracket.pairsFrom_append,
      Bracket.pairsFrom_append]
    simp [Bracket.pairsFrom, Bracket.opener, member]
  have same (depth : Nat) : parenDepth .code depth rest =
      openParens depth (Mode.code.visible isParen (left.width + head.width + 1) rest) :=
    openParens_congr depth (Mode.map_snd_visible _ _ _)
  rw [same, same]
  exact openParens_of_unclosed _ [] _ _ unclosed' base

/-! ### Where the closers go -/

/-- A text that starts with nothing a word could go on with, and shows no parenthesis. -/
structure Silent (mode : Mode) (text : Text) : Prop where
  parens : mode.visible isParen 0 text = []
  start : ∀ c ∈ text.head?, isBlank c = true ∨ c = '/'

/-- A blank is no parenthesis. -/
theorem isParen_of_isBlank (blank : isBlank c = true) : isParen c = false := by
  simp only [isParen, Bool.or_eq_false_iff, beq_eq_false_iff_ne]
  constructor
  · rintro rfl
    simp [isBlank] at blank
  · rintro rfl
    simp [isBlank] at blank

/-- A blank is no half of a comment mark. -/
theorem ne_comment_of_isBlank (blank : isBlank c = true) : c ≠ '/' ∧ c ≠ '*' := by
  constructor
  · rintro rfl
    simp [isBlank] at blank
  · rintro rfl
    simp [isBlank] at blank

/-- Blanks in front of a silent text keep it silent. -/
theorem Silent.blanks {blanks : Text} (blank : ∀ c ∈ blanks, isBlank c = true)
    (silent : (mode.after blanks).visible isParen 0 rest = [])
    (start : ∀ c ∈ rest.head?, isBlank c = true ∨ c = '/') : Silent mode (blanks ++ rest) := by
  constructor
  · rw [Mode.visible_append,
      Mode.visible_eq_nil 0 fun c listed => isParen_of_isBlank (blank c listed),
      List.nil_append]
    exact Mode.visible_eq_nil_of_visible silent _
  · cases blanks with
    | nil => simpa using start
    | cons d blanks =>
      intro c head
      obtain rfl : d = c := by simpa using head
      exact .inl (blank d (by simp))

/-- The last code of a line and what follows it: the code ends in code, in a character
that is not blank, and nothing that follows shows a parenthesis. -/
structure CodeThen (mode : Mode) (code trailing : Text) : Prop where
  inside : (mode.after code).inCode = true
  last : ∃ front c, code = front ++ [c] ∧ isBlank c = false
  resumes : (mode.after code).Resumes trailing
  silent : Silent (mode.after code) trailing

/-- A comment in front of a silent text is silent with it. -/
theorem Silent.comment (passes : mode.Passes segment rest) (comment : segment.kind = .comment)
    (silent : Silent (mode.after segment.body) rest) : Silent mode (segment.body ++ rest) := by
  have hidden : mode.Marked false segment.body rest := by simpa [comment] using passes.marked
  constructor
  · rw [Mode.visible_append, Mode.visible_of_marked_false isPlain_of_isParen 0 hidden,
      List.nil_append]
    exact Mode.visible_eq_nil_of_visible silent.parens _
  · intro c head
    rw [List.head?_append, passes.comment comment] at head
    exact .inr (by simpa using head.symm)

/-- A closed literal ends in its quote. -/
theorem trimEnd_of_literal (passes : mode.Passes segment rest) (literal : segment.kind = .literal) :
    segment.body.trimEnd = segment.body := by
  obtain ⟨-, front, quote, mark, body⟩ := passes.literal literal
  have notBlank : isBlank quote = false := by
    simp only [isQuote, Bool.or_eq_true, beq_iff_eq, backquote] at mark
    rcases mark with (rfl | rfl) | rfl <;> decide
  simp [body, Text.trimEnd, notBlank]

/-- Where a silent text follows a segment of code or a closed literal, the segment less its
trailing blanks ends the code. -/
theorem CodeThen.of_segment (passes : mode.Passes segment rest)
    (kind : segment.kind = .code ∨ segment.kind = .literal)
    (silent : Silent (mode.after segment.body) rest) {front : Text}
    (kept : segment.body.trimEnd = front ++ [c]) (notBlank : isBlank c = false) {blanks : Text}
    (trimmed : segment.body = segment.body.trimEnd ++ blanks)
    (blank : ∀ b ∈ blanks, isBlank b = true) :
    CodeThen mode segment.body.trimEnd (blanks ++ rest) := by
  have inside : (mode.after segment.body.trimEnd).inCode = true := by
    rcases kind with code | literal
    · have shown : mode.Marked true segment.body rest := by simpa [code] using passes.marked
      rw [trimmed, kept, List.append_assoc] at shown
      rw [kept, Mode.after_append]
      have shown' : mode.Marked true (front ++ c :: blanks) rest := by simpa using shown
      exact Mode.inCode_step_of_showsCode (Mode.showsCode_of_marked shown')
    · rw [trimEnd_of_literal passes literal, (passes.literal literal).1]
      rfl
  refine ⟨inside, ⟨front, c, kept, notBlank⟩, ?_, .blanks blank ?_ silent.start⟩
  · cases blanks with
    | nil =>
      rw [List.append_nil] at trimmed
      rw [← trimmed]
      exact passes.resumes
    | cons b blanks =>
      refine Mode.resumes_of_inCode inside ?_
      intro d head
      obtain rfl : b = d := by simpa using head
      exact ne_comment_of_isBlank (blank b (by simp))
  · rw [← Mode.after_append, ← trimmed]
    exact silent.parens

/-- A segment in front of text whose last code is found goes in front of that code. -/
theorem CodeThen.append {front : Text} (codeThen : CodeThen (mode.after front) code trailing) :
    CodeThen mode (front ++ code) trailing := by
  refine ⟨?_, ?_, ?_, ?_⟩
  · rw [Mode.after_append]
    exact codeThen.inside
  · obtain ⟨init, c, rfl, notBlank⟩ := codeThen.last
    exact ⟨front ++ init, c, by simp, notBlank⟩
  · rw [Mode.after_append]
    exact codeThen.resumes
  · rw [Mode.after_append]
    exact codeThen.silent

/-- The search for the end of the last code finds it, or finds none. Every slice it takes
exists. The induction is on the segments that remain, with `front` the text in front of
them. -/
theorem lastCodeEnd?_spec (front rest : Text) (segments : List Segment) (laid : Laid rest segments)
    (mode : Mode) (resumes : mode.Resumes rest)
    (terminated : ∀ segment ∈ segments, segment.kind ≠ .unterminated) (last : Nat) :
    (lastCodeEnd? (front ++ rest) last (Segment.placeFrom front.width segments) = some last ∧
        Silent mode rest) ∨
      ∃ code trailing, rest = code ++ trailing ∧ CodeThen mode code trailing ∧
        lastCodeEnd? (front ++ rest) last (Segment.placeFrom front.width segments) =
          some (front.width + code.width) := by
  induction segments generalizing front rest mode last with
  | nil =>
    cases laid
    exact .inl ⟨rfl, rfl, by simp⟩
  | cons segment segments ih =>
    obtain ⟨rest, rfl, further, passes⟩ := laid.first resumes
    have slice : (front ++ (segment.body ++ rest)).slice? front.width
        (front.width + segment.body.width) = some segment.body :=
      (Text.slice?_eq_some_iff _ _ _ _).mpr ⟨front, rest, by simp, rfl, rfl⟩
    have next := ih (front ++ segment.body) rest further (mode.after segment.body)
      passes.resumes fun other listed => terminated other (by simp [listed])
    simp only [Segment.placeFrom, lastCodeEnd?, slice, Option.bind_eq_bind, Option.bind_some]
    rw [Text.width_append, List.append_assoc] at next
    rcases next (if segment.kind = .comment || segment.body.trimEnd.isEmpty then last
        else front.width + segment.body.trimEnd.width) with ⟨found, silent⟩ | later
    · rw [found]
      obtain ⟨blanks, trimmed, blank⟩ := Text.exists_blanks_of_trimEnd segment.body
      by_cases comment : segment.kind = .comment
      · exact .inl ⟨by simp [comment], .comment passes comment silent⟩
      · rcases Text.trimEnd_eq_nil_or_concat segment.body with empty | ⟨init, c, kept, notBlank⟩
        · rw [empty, List.nil_append] at trimmed
          refine .inl ⟨by simp [empty], ?_⟩
          exact .blanks (fun c listed => blank c (trimmed ▸ listed)) silent.parens silent.start
        · have kind : segment.kind = .code ∨ segment.kind = .literal := by
            have closed := terminated segment (by simp)
            revert comment closed
            cases segment.kind <;> simp
          refine .inr ⟨segment.body.trimEnd, blanks ++ rest, ?_,
            .of_segment passes kind silent kept notBlank trimmed blank, ?_⟩
          · rw [← List.append_assoc, ← trimmed]
          · simp [comment, kept]
    · obtain ⟨code, trailing, rfl, codeThen, found⟩ := later
      refine .inr ⟨segment.body ++ code, trailing, by simp, codeThen.append, ?_⟩
      rw [found, Text.width_append, Nat.add_assoc]

/-- Parentheses behind the last code of a line do not count. -/
theorem CodeThen.parenDepth_eq (codeThen : CodeThen mode code trailing) (depth : Nat) :
    parenDepth mode depth (code ++ trailing) = parenDepth mode depth code := by
  rw [parenDepth_append, parenDepth_of_visible codeThen.silent.parens]

/-- They count for nothing behind other code either. -/
theorem CodeThen.parenDepth_trailing (codeThen : CodeThen mode code trailing) (depth : Nat) :
    parenDepth .code depth trailing = depth := by
  apply parenDepth_of_visible
  rw [← Mode.visible_of_resumes codeThen.inside codeThen.resumes]
  exact codeThen.silent.parens

/-- Closers in code close as many parentheses as there are closers. -/
theorem parenDepth_closers (inside : mode.inCode = true) (depth missing : Nat) :
    parenDepth mode (depth + missing) (List.replicate missing ')') = depth := by
  induction missing generalizing mode with
  | zero => rfl
  | succ missing ih =>
    have one : parenDepth mode (depth + (missing + 1)) [')'] = depth + missing := by
      simp [parenDepth, Mode.visible, inside, isParen, openParens]
    have next : (mode.after [')']).inCode = true := by
      rw [Mode.after_of_inCode inside (by simp) (by simp [Mode.isPlain, isQuote, backquote])]
      rfl
    have split : List.replicate (missing + 1) ')' = [')'] ++ List.replicate missing ')' := rfl
    rw [split, parenDepth_append, one]
    exact ih next

/-- A blank of a line is plain. -/
theorem isPlain_of_isBlank (blank : isBlank c = true) (notNewline : c ≠ '\n') :
    Mode.isPlain c = true := by
  have other (d : Char) (visible : isBlank d = false) : c ≠ d := by
    rintro rfl
    rw [visible] at blank
    cases blank
  simp [Mode.isPlain, isQuote, backquote, other '"' rfl, other '\'' rfl, other '\x60' rfl,
    other '/' rfl, other '*' rfl, other '\\' rfl, notNewline]

/-- Without a literal that lacks its end, no segment is one. The layout reports the first such
region, and regions have the kinds of their segments. -/
theorem terminated_of_unterminated? {text : Text} (closed : text.unterminated? = none) :
    ∀ segment ∈ text.segments, segment.kind ≠ .unterminated := by
  have kinds (offset : Nat) (segments : List Segment) :
      (Segment.placeFrom offset segments).map Region.kind = segments.map Segment.kind := by
    induction segments generalizing offset with
    | nil => rfl
    | cons segment segments ih => simp [Segment.placeFrom, ih]
  intro segment listed unterminated
  obtain ⟨region, placed, kind⟩ : ∃ region ∈ text.regions, region.kind = segment.kind := by
    have member : segment.kind ∈ text.regions.map Region.kind := by
      rw [Text.regions, kinds]
      exact List.mem_map_of_mem listed
    exact List.mem_map.mp member
  have none := List.find?_eq_none.mp (Option.map_eq_none_iff.mp closed) region placed
  simp [kind, unterminated] at none

/-- A call on one line whose first parenthesis is open at its end. -/
structure OpenCall (call : Text) : Prop where
  form : ∃ head rest, call = head ++ '(' :: rest ∧ head ≠ [] ∧
    (∀ c ∈ head, Mode.isPlain c = true ∧ isParen c = false) ∧
    ∀ base, parenDepth .code (base + 1) rest = base + parenDepth .code 1 rest ∧
      1 ≤ parenDepth .code 1 rest
  oneLine : ∀ c ∈ call, c ≠ '\n'
  terminated : call.unterminated? = none

/-- The call leaves parentheses open on top of what is open in front of it. -/
theorem OpenCall.parenDepth_eq {call : Text} (openCall : OpenCall call) (base : Nat) :
    parenDepth .code base call = base + parenDepth .code 0 call ∧ 1 ≤ parenDepth .code 0 call := by
  obtain ⟨head, rest, rfl, present, plain, opened⟩ := openCall.form
  have whole (depth : Nat) :
      parenDepth .code depth (head ++ '(' :: rest) = parenDepth .code (depth + 1) rest := by
    have split : head ++ '(' :: rest = head ++ (['('] ++ rest) := rfl
    rw [split, parenDepth_append,
      Mode.after_of_inCode rfl present fun c listed => (plain c listed).1,
      parenDepth_of_absent fun c listed => (plain c listed).2, parenDepth_append]
    rfl
  rw [whole, whole]
  exact opened base

/-- A call does not start as the second half of a comment mark. -/
theorem OpenCall.head {call : Text} (openCall : OpenCall call) :
    ∀ c ∈ call.head?, c ≠ '/' ∧ c ≠ '*' := by
  obtain ⟨head, rest, rfl, present, plain, -⟩ := openCall.form
  obtain ⟨d, head', rfl⟩ := List.exists_cons_of_ne_nil present
  intro c first
  obtain rfl : d = c := by simpa using first
  obtain ⟨-, notSlash, notStar, -⟩ := Mode.isPlain_iff.mp (plain d (by simp)).1
  exact ⟨notSlash, notStar⟩

/-- How the remedy closes a call: closers go behind the last code, in front of a final
semicolon and without the blanks that stood there. -/
structure Closing (call new front blanks final trailing : Text) (missing : Nat) : Prop where
  call_eq : call = front ++ blanks ++ final ++ trailing
  new_eq : new = front ++ List.replicate missing ')' ++ final ++ trailing
  blank : ∀ c ∈ blanks, isBlank c = true
  ending : final = [] ∨ final = [';']
  dropped : blanks = [] ∨ final = [';']
  found : lastCodeEnd? call 0 call.regions = some (Text.width (front ++ blanks ++ final))
  start : ∀ c ∈ trailing.head?, isBlank c = true ∨ c = '/'
  silent : (Mode.code.after (front ++ blanks ++ final)).visible isParen 0 trailing = []
  inside : (Mode.code.after front).inCode = true
  resumes : (Mode.code.after front).Resumes (blanks ++ final ++ trailing)
  positive : 0 < missing
  opened : ∀ base, parenDepth .code base call = base + missing
  closed : ∀ base, parenDepth .code base new = base

/-- The closed call starts as the open one does, or with a closer. -/
theorem Closing.head {call new front blanks final trailing : Text} {missing : Nat}
    (closing : Closing call new front blanks final trailing missing) (openCall : OpenCall call) :
    ∀ c ∈ new.head?, c ≠ '/' ∧ c ≠ '*' := by
  intro c first
  rw [closing.new_eq] at first
  cases front with
  | nil =>
    obtain ⟨others, missing_eq⟩ := Nat.exists_eq_succ_of_ne_zero (Nat.ne_of_gt closing.positive)
    obtain rfl : ')' = c := by simpa [missing_eq, List.replicate_succ] using first
    decide
  | cons d front =>
    obtain rfl : d = c := by simpa using first
    exact openCall.head d (by simp [closing.call_eq])

/-- Closers behind the front of the last code close what the call leaves open, and change nothing of
what is open in front of it. -/
theorem Closing.of_codeThen {call front blanks final trailing : Text} (openCall : OpenCall call)
    (call_eq : call = front ++ blanks ++ final ++ trailing)
    (codeThen : CodeThen .code (front ++ blanks ++ final) trailing)
    (blank : ∀ c ∈ blanks, isBlank c = true) (ending : final = [] ∨ final = [';'])
    (dropped : blanks = [] ∨ final = [';'])
    (found : lastCodeEnd? call 0 call.regions = some (Text.width (front ++ blanks ++ final)))
    (inside : (Mode.code.after front).inCode = true) :
    Closing call
      (front ++ List.replicate (parenDepth .code 0 call) ')' ++ final ++ trailing)
      front blanks final trailing (parenDepth .code 0 call) := by
  have positive := (openCall.parenDepth_eq 0).2
  have opened (base : Nat) := (openCall.parenDepth_eq base).1
  have noParen : ∀ c ∈ final, isParen c = false := by
    rcases ending with rfl | rfl <;> simp [isParen]
  have resumes : (Mode.code.after front).Resumes (blanks ++ final ++ trailing) := by
    cases blanks with
    | nil =>
      rcases ending with rfl | rfl
      · simpa using codeThen.resumes
      · exact Mode.resumes_of_inCode inside (by simp)
    | cons b blanks =>
      refine Mode.resumes_of_inCode inside ?_
      intro c head
      obtain rfl : b = c := by simpa using head
      exact ne_comment_of_isBlank (blank b (by simp))
  refine ⟨call_eq, rfl, blank, ending, dropped, found, codeThen.silent.start,
    codeThen.silent.parens, inside, resumes, positive, opened, ?_⟩
  intro base
  have front_eq : parenDepth .code base front = base + parenDepth .code 0 call := by
    have whole := opened base
    rw [call_eq, codeThen.parenDepth_eq, parenDepth_append, parenDepth_append,
      parenDepth_of_absent fun c listed => isParen_of_isBlank (blank c listed),
      parenDepth_of_absent noParen] at whole
    rw [whole, call_eq]
  have closers : ∀ c ∈ List.replicate (parenDepth .code 0 call) ')' ++ final,
      Mode.isPlain c = true := by
    intro c listed
    rcases List.mem_append.mp listed with closer | last
    · obtain rfl := List.eq_of_mem_replicate closer
      rfl
    · rcases ending with rfl | rfl
      · cases last
      · obtain rfl := List.mem_singleton.mp last
        rfl
  have present : List.replicate (parenDepth .code 0 call) ')' ++ final ≠ [] := by
    intro empty
    have none := (List.append_eq_nil_iff.mp empty).1
    simp only [List.replicate_eq_nil_iff] at none
    omega
  rw [List.append_assoc front, parenDepth_append, parenDepth_append, front_eq, parenDepth_append,
    parenDepth_closers inside, parenDepth_of_absent noParen, Mode.after_append,
    Mode.after_of_inCode inside present closers, codeThen.parenDepth_trailing]

/-- The remedy finds a place for the closers and gives a call that leaves nothing open. -/
theorem closing_closeCall {call : Text} (openCall : OpenCall call) (groups : List (Option Text)) :
    ∃ new front blanks final trailing, closeCall call groups = some new ∧
      Closing call new front blanks final trailing (parenDepth .code 0 call) := by
  have positive : parenDepth .code 0 call ≠ 0 :=
    Nat.pos_iff_ne_zero.mp (openCall.parenDepth_eq 0).2
  rcases lastCodeEnd?_spec [] call call.segments call.laid_segments .code (.code call)
      (terminated_of_unterminated? openCall.terminated) 0 with ⟨-, silent⟩ | later
  · exact absurd (parenDepth_of_visible silent.parens 0) positive
  obtain ⟨code, trailing, split, codeThen, found⟩ := later
  have found' : lastCodeEnd? call 0 call.regions = some code.width := by
    simpa [Text.regions] using found
  have unfolded : closeCall call groups = some (if code.endsWith [';'] then
      Text.trimEnd code.dropLast ++ List.replicate (parenDepth .code 0 call) ')' ++ [';'] ++
        trailing
      else code ++ List.replicate (parenDepth .code 0 call) ')' ++ trailing) := by
    have cut : call.splitAt? code.width = some (code, trailing) := by
      rw [split, Text.splitAt?_width]
    have count : openParens 0 code.codeChars = parenDepth .code 0 call := by
      rw [openParens_codeChars, split, codeThen.parenDepth_eq]
    simp only [closeCall, found', cut, count, positive, Option.bind_eq_bind, Option.bind_some,
      ↓reduceIte]
    split <;> rfl
  obtain ⟨front, c, rfl, -⟩ := codeThen.last
  by_cases ends : c = ';'
  · -- The closers go in front of the semicolon and of the blanks in front of it.
    subst ends
    obtain ⟨blanks, trimmed, blank⟩ := Text.exists_blanks_of_trimEnd front
    have call_eq : call = Text.trimEnd front ++ blanks ++ [';'] ++ trailing := by
      rw [split, ← trimmed]
    have plain : ∀ d ∈ blanks ++ [';'], Mode.isPlain d = true := by
      intro d listed
      rcases List.mem_append.mp listed with inside | last
      · exact isPlain_of_isBlank (blank d inside) (openCall.oneLine d (by simp [call_eq, inside]))
      · obtain rfl := List.mem_singleton.mp last
        rfl
    have inside : (Mode.code.after (Text.trimEnd front)).inCode = true := by
      rw [← Mode.inCode_after (Mode.proper_code_after _) plain,
        ← Mode.after_append, ← List.append_assoc, ← trimmed]
      exact codeThen.inside
    refine ⟨_, Text.trimEnd front, blanks, [';'], trailing, unfolded, ?_⟩
    rw [Text.endsWith_concat, List.dropLast_concat]
    exact .of_codeThen openCall call_eq (by rwa [← trimmed]) blank (.inr rfl) (.inr rfl)
      (by rw [← trimmed]; exact found') inside
  · refine ⟨_, front ++ [c], [], [], trailing, unfolded, ?_⟩
    have call_eq : call = (front ++ [c]) ++ [] ++ [] ++ trailing := by simpa using split
    have closing := Closing.of_codeThen openCall call_eq (by simpa using codeThen) (by simp)
      (.inl rfl) (.inl rfl) (by simpa using found') codeThen.inside
    simpa [ends] using closing

/-! ### The calls that the rule reports -/

/-- The characters of the words and gaps in front of the parenthesis of a call. -/
def isCallHead (c : Char) : Bool := c.isAlpha || c == '.' || among " \t" c

/-- The name of a call has plain characters and no parenthesis. -/
theorem isPlain_of_isCallHead {c : Char} (head : isCallHead c = true) :
    Mode.isPlain c = true ∧ isParen c = false := by
  have other (d : Char) (excluded : isCallHead d = false) : c ≠ d := by
    rintro rfl
    rw [excluded] at head
    cases head
  simp [Mode.isPlain, isQuote, backquote, isParen, other '"' rfl, other '\'' rfl, other '\x60' rfl,
    other '/' rfl, other '*' rfl, other '\n' rfl, other '\\' rfl, other '(' rfl, other ')' rfl]

/-- The parenthesis of a call is the first one. -/
theorem takeWhile_of_isCallHead {head : Text} (isHead : ∀ c ∈ head, isCallHead c = true)
    (rest : Text) : (head ++ '(' :: rest).takeWhile (· ≠ '(') = head := by
  rw [List.takeWhile_append_of_pos, List.takeWhile_cons_of_neg (by simp), List.append_nil]
  rintro c listed
  have notParen := (isPlain_of_isCallHead (isHead c listed)).2
  simp only [isParen, Bool.or_eq_false_iff, beq_eq_false_iff_ne] at notParen
  simpa using notParen.1

/-- A console call is a dotted name, a gap, and a parenthesis with the rest of its line. -/
theorem form_of_fits_consoleCall {before body after : Text} {captures : List Capture}
    (fits : consoleCall.Fits before body after captures) :
    ∃ head rest, body = head ++ '(' :: rest ∧ head.head? = some 'c' ∧
      (∀ c ∈ head, isCallHead c = true) ∧ (∀ c ∈ rest, c ≠ '\n') ∧
      ∀ c ∈ after.head?, c = '\n' := by
  obtain ⟨-, fits₁⟩ := fits.pass_edge
  obtain ⟨_, rfl, fits₂⟩ := fits₁.pass_lit
  obtain ⟨method, listed, _, rfl, fits₃⟩ := fits₂.pass_litOf
  obtain ⟨space, _, rfl, blank, fits₄⟩ := fits₃.pass_many
  obtain ⟨_, rfl, fits₅⟩ := fits₄.pass_lit
  obtain ⟨rest, _, rfl, line, fits₆⟩ := fits₅.pass_many
  obtain ⟨ends, rfl, -⟩ := fits₆.pass_lineEnd
  have object : "console.".toList.all isCallHead = true := by decide
  have methods : ∀ name ∈ ["log", "info", "warn", "error", "debug", "trace", "table"],
      name.toList.all isCallHead = true := by decide
  refine ⟨"console.".toList ++ method.toList ++ space, rest, by simp, by simp, ?_,
    by simpa using line, ends⟩
  intro c member
  rcases List.mem_append.mp member with word | gapped
  · rcases List.mem_append.mp word with front | called
    · exact List.all_eq_true.mp object c front
    · exact List.all_eq_true.mp (methods method listed) c called
  · simp [isCallHead, blank c gapped]

/-- A call that the rule confirms is open on its line, in code, starts with its name and
ends with its line. -/
theorem openCall_of_isCallOpen {found : Match} {left right : Text} {captures : List Capture}
    {known : Text → Bool} (occurs : found.Occurs consoleCall text left right captures)
    (confirmed : isCallOpen ⟨text, text.layout, known, found⟩ = true) :
    OpenCall found.body ∧ (Mode.code.after left).inCode = true ∧
      found.body.head? = some 'c' ∧ ∀ c ∈ right.head?, c = '\n' := by
  obtain ⟨head, rest, form, first, isHead, line, ends⟩ := form_of_fits_consoleCall occurs.fits
  have present : head ≠ [] := by
    rintro rfl
    cases first
  have plain : ∀ c ∈ head, Mode.isPlain c = true ∧ isParen c = false := fun c listed =>
    isPlain_of_isCallHead (isHead c listed)
  simp only [isCallOpen, Bool.and_eq_true, Option.isNone_iff_eq_none] at confirmed
  obtain ⟨-, ⟨inCode, unclosed⟩, terminated⟩ := confirmed
  have whole : text = left ++ (head ++ '(' :: rest) ++ right := by rw [← form]; exact occurs.whole
  have inside : (Mode.code.after left).inCode = true := by
    obtain ⟨c, head', rfl⟩ := List.exists_cons_of_ne_nil present
    have whole' : text = left ++ c :: (head' ++ '(' :: rest ++ right) := by simpa using whole
    rw [occurs.start_eq] at inCode
    exact (Text.layout_inCode_eq whole' (plain c (by simp)).1).symm.trans inCode
  rw [form, takeWhile_of_isCallHead isHead, occurs.start_eq, whole] at unclosed
  refine ⟨⟨⟨head, rest, form, present, plain,
    parenDepth_of_matchingClose? inside present plain unclosed⟩, ?_, terminated⟩, inside,
    by rw [form, List.head?_append, first]; rfl, ends⟩
  intro c listed
  rw [form, List.mem_append, List.mem_cons] at listed
  rcases listed with front | rfl | back
  · exact (Mode.isPlain_iff.mp (plain c front).1).2.2.2.1
  · decide
  · exact line c back

end Delimiter

end ScriptCheck
