import ScriptCheck.Proofs.Statements
import ScriptCheck.Proofs.Remedies

/-!
# Bodies in braces

The remedy for a bare `if` puts braces around its body. They are a pair of the new text,
and all other pairs are as before, if the parenthesis behind the condition is one of code.
The search takes the first parenthesis that fits, also one in a literal of the condition;
then the brace ends up in that literal.
-/

namespace ScriptCheck

/-! ### Where a body ends -/

namespace Mode

/-- Whether a comment is open. -/
def inComment : Mode → Bool
  | line | block | star => true
  | _ => false

variable {mode : Mode} {c : Char}

/-- A comment opens behind a slash, with a second slash or a star, and at no other character. -/
theorem of_inComment_step (inside : (mode.step c).inComment = true) :
    mode.inComment = true ∨ mode = slash ∧ (c = '/' ∨ c = '*') := by
  cases mode with
  | line | block | star => exact .inl rfl
  | slash =>
    right
    by_cases second : c = '/' ∨ c = '*'
    · exact ⟨rfl, second⟩
    · obtain ⟨notSlash, notStar⟩ := not_or.mp second
      simp only [step, notSlash, notStar, ↓reduceIte] at inside
      split at inside <;> cases inside
  | code =>
    simp only [step] at inside
    repeat' split at inside
    all_goals cases inside
  | quoted quote =>
    simp only [step] at inside
    repeat' split at inside
    all_goals cases inside
  | escaped => cases inside

/-- Only a slash leads to the mode behind a slash. -/
theorem eq_of_step_eq_slash (slashed : mode.step c = slash) : c = '/' := by
  by_cases same : c = '/'
  · exact same
  · cases mode with
    | escaped => cases slashed
    | _ =>
      simp only [step, same, ↓reduceIte] at slashed
      repeat' split at slashed
      all_goals cases slashed

/-- A comment that is open has been opened by one of the two marks, so that a text without them has
no comment. -/
theorem infix_of_inComment {text : Text} (inside : (code.after text).inComment = true) :
    "//".toList <:+: text ∨ "/*".toList <:+: text := by
  induction text using List.reverseRecOn with
  | nil => cases inside
  | append_singleton text c ih =>
    rw [after_append] at inside
    rcases of_inComment_step inside with open' | ⟨slashed, second⟩
    · rcases ih open' with line | block
      · exact .inl (line.trans (List.infix_append' [] text [c]))
      · exact .inr (block.trans (List.infix_append' [] text [c]))
    · rcases List.eq_nil_or_concat' text with rfl | ⟨front, d, rfl⟩
      · cases slashed
      · rw [after_append] at slashed
        obtain rfl := eq_of_step_eq_slash slashed
        rcases second with rfl | rfl
        · exact .inl ⟨front, [], by simp⟩
        · exact .inr ⟨front, [], by simp⟩

/-- The quote that closes a literal ends it. -/
theorem step_of_closes (proper : mode.Proper) (closing : mode.closes c = true) :
    mode.step c = code := by
  obtain rfl := eq_quoted_of_closes closing
  have mark : isQuote c = true := proper
  have notBackslash : c ≠ '\\' := by
    rintro rfl
    cases mark
  simp [step, notBackslash]

/-- A literal that is open at the end of a text lacks its end. So none is open where no literal
lacks one. -/
theorem inLiteral_of_unterminated? {text : Text} (closed : text.unterminated? = none) :
    (code.after text).inLiteral = false := by
  rcases List.eq_nil_or_concat' text with rfl | ⟨front, c, rfl⟩
  · rfl
  · have mode_eq : code.after (front ++ [c]) = (code.after front).step c := by
      rw [after_append]
      rfl
    rw [mode_eq]
    cases step : ((code.after front).step c).inLiteral with
    | false => rfl
    | true =>
      have hidden : (code.after front).showsCode c none = false := by
        cases shown : (code.after front).showsCode c none with
        | false => rfl
        | true =>
          rw [inLiteral_of_inCode (inCode_step_of_showsCode shown)] at step
          cases step
      have unclosed : (code.after front).closes c = false := by
        cases closing : (code.after front).closes c with
        | false => rfl
        | true =>
          rw [step_of_closes (proper_code_after front) closing] at step
          cases step
      have unterminated : (code.after front).kindOf c [] = .unterminated := by
        simp [kindOf, hidden, step, unclosed, isClosedBy]
      have kind := Text.kindAt?_layout_byte front [] c c.utf8Size_pos
      rw [unterminated] at kind
      have inside : Text.width front + 0 < Text.width (front ++ [c]) := by
        have positive := c.utf8Size_pos
        simp only [Text.width_append, Text.width_cons]
        omega
      exact absurd kind (Text.unterminated?_eq_none_iff.mp closed _ inside)

end Mode

namespace Block

open Alteration Phrase

/-- A body that can be wrapped ends in code, since it has no comment marks and leaves no literal
open. -/
theorem inCode_after_of_isWrappable {body : Text} (wrappable : isWrappable body = true) :
    (Mode.code.after body).inCode = true := by
  obtain ⟨⟨-, -, line, block⟩, -, literal⟩ := (isWrappable_iff body).mp wrappable
  have outside := Mode.inLiteral_of_unterminated? literal
  have quiet : (Mode.code.after body).inComment = false := by
    rw [Bool.eq_false_iff]
    intro inside
    rcases Mode.infix_of_inComment inside with mark | mark
    · rw [(Text.contains_iff _ _).mpr mark] at line
      cases line
    · rw [(Text.contains_iff _ _).mpr mark] at block
      cases block
  revert outside quiet
  cases Mode.code.after body <;> simp [Mode.inLiteral, Mode.inComment, Mode.inCode]

/-! ### The body in its text -/

/-- How the remedy of a finding wraps a body. It keeps the condition and the body, sets one
blank on either side of the condition and none behind the body, and adds braces and maybe a
semicolon. -/
structure Wraps (finding : Finding)
    (text left gap condition gap' body blanks final trailing right : Text) : Prop where
  whole : text = left ++ finding.matched ++ right
  place : left.width = finding.offset
  matched_eq : finding.matched = "if".toList ++ gap ++ ('(' :: condition ++ [')']) ++ gap' ++
    (body ++ blanks) ++ trailing
  grouped : groupText? finding.groups 1 = some condition ∧
    groupText? finding.groups 2 = some (body ++ blanks)
  replaced : finding.replacement? = some ("if".toList ++ [' '] ++ ('(' :: condition ++ [')']) ++
    " \x7b ".toList ++ body ++ (final ++ " \x7d".toList) ++ trailing)
  blank : ∀ c ∈ gap ++ gap' ++ blanks, isBlank c = true
  ending : final = [] ∨ final = [';']

/-- The parts of a text up to the end of the condition. -/
def headParts (left gap condition gap' : Text) : Alteration :=
  [.kept (left ++ "if".toList), .dropped gap, .added [' '], .kept ('(' :: condition ++ [')']),
    .dropped gap']

/-- The parts of a block. -/
def blockParts (body blanks final : Text) : Alteration :=
  [.added " \x7b ".toList, .kept body, .dropped blanks, .added (final ++ " \x7d".toList)]

/-- The parts of a text in which a body is wrapped. -/
def wrappedParts (left gap condition gap' body blanks final trailing right : Text) : Alteration :=
  headParts left gap condition gap' ++ blockParts body blanks final ++ [.kept (trailing ++ right)]

/-- What a head becomes. -/
theorem after_headParts (left gap condition gap' : Text) :
    (headParts left gap condition gap').after = left ++ "if (".toList ++ condition ++ [')'] := by
  simp [headParts, Part.new]

/-- What a block comes from. -/
theorem before_blockParts (body blanks final : Text) :
    (blockParts body blanks final).before = body ++ blanks := by
  simp [blockParts, Part.old]

/-- What a block becomes. -/
theorem after_blockParts (body blanks final : Text) :
    (blockParts body blanks final).after =
      " \x7b ".toList ++ body ++ (final ++ " \x7d".toList) := by
  simp [blockParts, Part.new]

/-- The parts of a text in which a body is wrapped behind a head. -/
def framedParts (head : Alteration) (body blanks final rest : Text) : Alteration :=
  head ++ blockParts body blanks final ++ [.kept rest]

/-- A body that can be wrapped, with the blanks behind it, what is added to end it, and the rest
of the text. -/
structure Bare (body blanks final rest : Text) : Prop where
  blank : ∀ c ∈ blanks, isBlank c = true
  plain : ∀ c ∈ blanks, Mode.isPlain c = true
  unbraced : ∀ c ∈ body, Bracket.brace.isSide c = false
  open' : (Mode.code.after body).inCode = true
  ending : final = [] ∨ final = [';']
  follows : ∀ c ∈ rest.head?, isBlank c = true

/-- A statement that can be wrapped is such a body, with the blanks behind it and what is added to
end it. -/
theorem exists_bare {statement trailing right : Text} (isBody : Body statement trailing right)
    (wrappable : isWrappable statement = true) :
    ∃ body blanks final, statement = body ++ blanks ∧ ended statement = body ++ final ∧
      Bare body blanks final (trailing ++ right) := by
  obtain ⟨blanks, trimmed, blank⟩ := Text.exists_blanks_of_trimEnd statement
  obtain ⟨final, ended_eq, ending⟩ := Line.ended_eq statement
  have plain : ∀ c ∈ blanks, Mode.isPlain c = true := fun c listed =>
    Delimiter.isPlain_of_isBlank (blank c listed)
      (isBody.oneLine c (by rw [trimmed]; simp [listed]))
  refine ⟨statement.trimEnd, blanks, final, trimmed, ended_eq, ?_⟩
  exact {
    blank, plain, ending
    unbraced := by
      intro c listed
      obtain ⟨⟨-, unbraced, -⟩, -⟩ := (isWrappable_iff statement).mp wrappable
      have other := List.any_eq_false.mp unbraced c (by rw [trimmed]; simp [listed])
      simpa [among, Bracket.isSide, Bracket.opener, Bracket.closer] using other
    open' := by
      have open' := inCode_after_of_isWrappable wrappable
      rwa [trimmed, Mode.after_append, Mode.inCode_after (Mode.proper_code_after _) plain] at open'
    follows := by
      intro c first
      cases trailing with
      | nil =>
        rw [isBody.ending c first]
        rfl
      | cons d trailing =>
        obtain rfl : d = c := by simpa using first
        exact Line.of_among isBlank (isBody.blank d (by simp)) (by decide) }

/-- A gap of spaces and tabs is blank and plain. -/
theorem blank_of_gap {gap : Text} (blank : ∀ c ∈ gap, among " \t" c = true) :
    (∀ c ∈ gap, isBlank c = true) ∧ ∀ c ∈ gap, Mode.isPlain c = true :=
  ⟨fun c listed => Line.of_among isBlank (blank c listed) (by decide),
    fun c listed => Line.of_among Mode.isPlain (blank c listed) (by decide)⟩

/-- A body that is wrapped behind a head. -/
structure Frame (head : Alteration) (body blanks final rest : Text) : Prop
    extends Bare body blanks final rest where
  settled : head.Settled
  spares : ∀ kind : Bracket, head.Spares kind.isSide

/-- A blank is no bracket, of whichever kind. -/
theorem isSide_of_isBlank (kind : Bracket) {c : Char} (blank : isBlank c = true) :
    kind.isSide c = false := by
  have other (d : Char) (visible : isBlank d = false) : c ≠ d := by
    rintro rfl
    rw [visible] at blank
    cases blank
  cases kind with
  | brace =>
    simp [Bracket.isSide, Bracket.opener, Bracket.closer, other '\x7b' rfl, other '\x7d' rfl]
  | paren => simp [Bracket.isSide, Bracket.opener, Bracket.closer, other '(' rfl, other ')' rfl]
  | square => simp [Bracket.isSide, Bracket.opener, Bracket.closer, other '[' rfl, other ']' rfl]

namespace Frame

variable {head : Alteration} {body blanks final rest : Text} {kind : Bracket}

/-- The parts of the text meet at seams: nothing is open between them, and no two make up a comment
mark. -/
theorem seamless (frame : Frame head body blanks final rest) :
    Seamless (framedParts head body blanks final rest) := by
  have ended : Mode.code.after (final ++ " \x7d".toList) = .code := by
    rcases frame.ending with rfl | rfl <;> rfl
  have trimmed := Mode.code_after_of_isPlain frame.plain
  rw [framedParts, List.append_assoc]
  refine frame.settled.seamless_append ⟨.of_after rfl _, .of_after rfl _,
    .inr (.of_head frame.open' ?_), .inr (.of_head frame.open' ?_), .of_after trimmed _,
    .of_after rfl _, .of_after rfl _, .of_after ended _, .inl rfl, .inl rfl, trivial⟩
  · intro c first
    apply Delimiter.ne_comment_of_isBlank
    cases blanks with
    | nil => exact frame.follows c (by simpa [Part.old] using first)
    | cons d blanks =>
      obtain rfl : d = c := by simpa [Part.old] using first
      exact frame.blank d (by simp)
  · intro c first
    rcases frame.ending with rfl | rfl
    · obtain rfl : ' ' = c := by simpa [Part.new] using first
      decide
    · obtain rfl : ';' = c := by simpa [Part.new] using first
      decide

/-- Both brackets of a pair are kept, since nothing but blanks is dropped behind the head. -/
theorem keeps_pair (frame : Frame head body blanks final rest) {opened closed : Nat}
    (pair : (opened, closed) ∈
      kind.pairs (framedParts head body blanks final rest).before.codeChars) :
    (framedParts head body blanks final rest).keeps opened = true ∧
      (framedParts head body blanks final rest).keeps closed = true := by
  rw [Bracket.pairs_codeChars] at pair
  have undropped : ∀ part ∈ framedParts head body blanks final rest,
      part.isKept = false → ∀ c ∈ part.old, kind.isSide c = false := by
    have inHead : ∀ part ∈ head, part.isKept = false → ∀ c ∈ part.old, kind.isSide c = false :=
      fun part listed changed c shown =>
        frame.spares kind part listed changed c (List.mem_append_left _ shown)
    have inBlanks := fun c listed => isSide_of_isBlank kind (frame.blank c listed)
    rw [framedParts, List.append_assoc]
    refine List.forall_mem_append.mpr ⟨inHead, ?_⟩
    simpa [blockParts, Part.isKept, Part.old] using inBlanks
  constructor
  · exact keeps_of_mem_visible frame.seamless undropped
      ((Bracket.opener_of_mem_pairsFrom pair).resolve_right (by simp))
  · exact keeps_of_mem_visible frame.seamless undropped (Bracket.closer_of_mem_pairsFrom pair)

/-- The braces around the body are all that the block shows of braces, because the body has none. -/
theorem visible_braces (frame : Frame head body blanks final rest) (start : Nat) :
    Mode.code.visible Bracket.brace.isSide start
        (" \x7b ".toList ++ body ++ (final ++ " \x7d".toList)) =
      [(start + 1, Bracket.brace.opener),
        (start + 3 + body.width + final.width + 1, Bracket.brace.closer)] := by
  have opener : Mode.code.visible Bracket.brace.isSide start " \x7b ".toList =
      [(start + 1, '\x7b')] := rfl
  have plain : ∀ c ∈ final ++ [' '], Mode.isPlain c = true ∧ Bracket.brace.isSide c = false := by
    rcases frame.ending with rfl | rfl <;> simp [Mode.isPlain, isQuote, backquote, Bracket.isSide,
      Bracket.opener, Bracket.closer]
  have settled : (Mode.code.after body).after (final ++ [' ']) = .code :=
    Mode.after_of_inCode frame.open' (by simp) fun c listed => (plain c listed).1
  have closer (offset : Nat) : (Mode.code.after body).visible Bracket.brace.isSide offset
      (final ++ " \x7d".toList) = [(offset + final.width + 1, '\x7d')] := by
    have regrouped : final ++ " \x7d".toList = (final ++ [' ']) ++ ['\x7d'] := by simp
    have blank : Text.width [' '] = 1 := rfl
    rw [regrouped, Mode.visible_append, settled,
      Mode.visible_eq_nil _ fun c listed => (plain c listed).2, Text.width_append, blank,
      ← Nat.add_assoc]
    rfl
  have ahead : Mode.code.after " \x7b ".toList = .code := rfl
  have width : Text.width " \x7b ".toList = 3 := rfl
  rw [Mode.visible_append, Mode.visible_append, Mode.after_append, ahead, opener, closer,
    Mode.visible_eq_nil _ frame.unbraced, Text.width_append, width, ← Nat.add_assoc]
  rfl

/-- The pairs of the mended text are the braces around the body and, at their new places, the
pairs of the text. -/
theorem mem_pairs_iff (frame : Frame head body blanks final rest) (pair : Nat × Nat) :
    pair ∈ kind.pairs (framedParts head body blanks final rest).after.codeChars ↔
      (kind = .brace ∧ pair = (head.after.width + 1,
        head.after.width + 3 + body.width + final.width + 1)) ∨
      ∃ old ∈ kind.pairs (framedParts head body blanks final rest).before.codeChars,
        ((framedParts head body blanks final rest).moved old.1,
          (framedParts head body blanks final rest).moved old.2) = pair := by
  have inBlanks : ∀ c ∈ blanks, kind.isSide c = false :=
    fun c listed => isSide_of_isBlank kind (frame.blank c listed)
  by_cases brace : kind = .brace
  · subst brace
    have nothing : Mode.code.visible Bracket.brace.isSide 0 (blockParts body blanks final).before =
        [] := by
      apply Mode.visible_eq_nil
      rw [before_blockParts]
      exact List.forall_mem_append.mpr ⟨frame.unbraced, inBlanks⟩
    have added := frame.visible_braces head.after.width
    rw [← after_blockParts body blanks final] at added
    simp only [true_and]
    exact mem_pairs_around_iff frame.seamless (frame.spares .brace) (by simp) nothing added pair
  · have fixed : kind.isSide ' ' = false ∧ kind.isSide '\x7b' = false ∧
        kind.isSide '\x7d' = false ∧ kind.isSide ';' = false := by
      cases kind with
      | brace => exact absurd rfl brace
      | paren => decide
      | square => decide
    have spares : (framedParts head body blanks final rest).Spares kind.isSide := by
      have block : Spares kind.isSide (blockParts body blanks final ++ [.kept rest]) := by
        rcases frame.ending with rfl | rfl <;> simpa [blockParts, fixed] using inBlanks
      rw [framedParts, List.append_assoc]
      exact List.forall_mem_append.mpr ⟨frame.spares kind, block⟩
    simp only [brace, false_and, false_or]
    rw [pairs_after frame.seamless spares, List.mem_map]

/-- The braces are code and go together, and brackets of the mended text go together exactly if
they are these two or did so before. -/
theorem matchingClose?_iff (frame : Frame head body blanks final rest) :
    let parts := framedParts head body blanks final rest
    let opened := head.after.width + 1
    let closed := head.after.width + 3 + body.width + final.width + 1
    parts.after.codeByte? opened = some '\x7b' ∧ parts.after.codeByte? closed = some '\x7d' ∧
      parts.after.layout.matchingClose? opened = some closed ∧
      (∀ opened' closed', parts.before.layout.matchingClose? opened' = some closed' →
        parts.keeps opened' = true ∧ parts.keeps closed' = true ∧
          parts.after.layout.matchingClose? (parts.moved opened') = some (parts.moved closed')) ∧
      ∀ opened' closed', parts.after.layout.matchingClose? opened' = some closed' →
        (opened' = opened ∧ closed' = closed) ∨
          ∃ old old', parts.before.layout.matchingClose? old = some old' ∧
            parts.moved old = opened' ∧ parts.moved old' = closed' := by
  intro parts opened closed
  have braces : (opened, closed) ∈ Bracket.brace.pairs parts.after.codeChars :=
    (frame.mem_pairs_iff _).mpr (.inl ⟨rfl, rfl⟩)
  have encloses := Text.mem_pairs_codeChars_iff.mp braces
  refine ⟨encloses.opens, encloses.closes, Text.matchingClose?_eq_some_iff.mpr ⟨_, encloses⟩,
    ?_, ?_⟩
  · intro opened' closed' matched
    obtain ⟨kind, pair⟩ := Text.matchingClose?_eq_some_iff_mem_pairs.mp matched
    obtain ⟨kept, kept'⟩ := frame.keeps_pair pair
    exact ⟨kept, kept', Text.matchingClose?_eq_some_iff_mem_pairs.mpr
      ⟨kind, (frame.mem_pairs_iff _).mpr (.inr ⟨_, pair, rfl⟩)⟩⟩
  · intro opened' closed' matched
    obtain ⟨kind, pair⟩ := Text.matchingClose?_eq_some_iff_mem_pairs.mp matched
    rcases (frame.mem_pairs_iff _).mp pair with ⟨-, same⟩ | ⟨old, member, same⟩
    · exact .inl (Prod.mk.inj same)
    · exact .inr ⟨old.1, old.2, Text.matchingClose?_eq_some_iff_mem_pairs.mpr ⟨kind, member⟩,
        Prod.mk.inj same⟩

end Frame

/-- A body that is wrapped in a text, and how the text is read around it. -/
structure BodySite (finding : Finding)
    (text left gap condition gap' body blanks final trailing right : Text) : Prop
    extends Wraps finding text left gap condition gap' body blanks final trailing right where
  length : finding.matched.width = finding.length
  inside : (Mode.code.after left).inCode = true
  plain : ∀ c ∈ gap ++ gap' ++ blanks, Mode.isPlain c = true
  unbraced : ∀ c ∈ body, Bracket.brace.isSide c = false
  open' : (Mode.code.after body).inCode = true
  follows : ∀ c ∈ (trailing ++ right).head?, isBlank c = true

/-- Each finding of the rule has such a body. The pattern gives its parts, and the check that it can
be wrapped. -/
theorem exists_bodySite {checker : Checker} {text : Text} {finding : Finding}
    (member : finding ∈ checker.ruleFindings text bareIf) :
    ∃ left gap condition gap' body blanks final trailing right,
      BodySite finding text left gap condition gap' body blanks final trailing right := by
  obtain ⟨findings, searched, listed⟩ := Checker.mem_ruleFindings.mp member
  obtain ⟨found, left, right, captures, rfl, occurs, confirmed⟩ :=
    Rule.exists_match_of_mem_findings? searched listed
  have holds := Check.yields_pure.mp (confirmed _ rfl)
  obtain ⟨inCode, confirmed⟩ := Bool.and_eq_true_iff.mp holds
  obtain ⟨gap, condition, gap', statement, trailing, form, blank, blank', -, isBody, group₁,
    group₂, group₃⟩ := form_of_fits_ifPattern occurs.fits
  have texts (number : Nat) (positive : 0 < number) (counted : number ≤ 3) :=
    groupText?_of_occurs occurs positive counted
  have wrappable : isWrappable statement = true := by
    obtain ⟨piece, group, rfl⟩ := group?_of_occurs occurs (by decide) (by decide) group₂
    rw [group] at confirmed
    exact confirmed
  obtain ⟨body, blanks, final, trimmed, ended_eq, bare⟩ := exists_bare isBody wrappable
  refine ⟨left, gap, condition, gap', body, blanks, final, trailing, right, ?_⟩
  exact {
    whole := occurs.whole
    place := occurs.start_eq.symm
    length := occurs.width_eq.symm
    matched_eq := by
      show found.body = _
      rw [form, ← trimmed]
      simp
    grouped := by
      rw [← trimmed]
      exact ⟨(texts 1 (by decide) (by decide)).trans group₁,
        (texts 2 (by decide) (by decide)).trans group₂⟩
    replaced := by
      show wrapIf found.body found.texts = _
      simp only [wrapIf, texts 1 (by decide) (by decide), texts 2 (by decide) (by decide),
        texts 3 (by decide) (by decide), group₁, group₂, group₃]
      simp [wrapped, ended_eq]
    blank := by
      simp only [List.forall_mem_append]
      exact ⟨⟨(blank_of_gap blank).1, (blank_of_gap blank').1⟩, bare.blank⟩
    plain := by
      simp only [List.forall_mem_append]
      exact ⟨⟨(blank_of_gap blank).2, (blank_of_gap blank').2⟩, bare.plain⟩
    inside := by
      have whole : text = left ++ 'i' :: (['f'] ++ gap ++ ('(' :: condition ++ [')']) ++ gap' ++
          (statement ++ trailing) ++ right) := by
        rw [occurs.whole, form]
        simp
      rw [occurs.start_eq] at inCode
      exact (Text.layout_inCode_eq whole rfl).symm.trans inCode
    ending := bare.ending
    unbraced := bare.unbraced
    open' := bare.open'
    follows := bare.follows }

namespace BodySite

variable {finding : Finding}
  {text left gap condition gap' body blanks final trailing right : Text}
variable (site : BodySite finding text left gap condition gap' body blanks final trailing right)

include site

/-- With what is dropped, the parts make up the text as it was. -/
theorem before_eq :
    (wrappedParts left gap condition gap' body blanks final trailing right).before = text := by
  simp [wrappedParts, headParts, blockParts, Part.old, site.whole, site.matched_eq]

/-- With what is put in, the parts make up the mended text. -/
theorem after_eq :
    (wrappedParts left gap condition gap' body blanks final trailing right).after =
      (Repair.run text [finding]).text := by
  rw [Repair.text_run_singleton site.whole site.place site.length site.replaced]
  simp [wrappedParts, headParts, blockParts, Part.new]

/-- Behind the keyword the text is in code. -/
theorem after_keyword : Mode.code.after (left ++ "if".toList) = .code := by
  rw [Mode.after_append]
  exact Mode.after_of_inCode site.inside (by simp) (List.all_eq_true.mp (by decide))

/-- The condition is read in the same modes before and afterwards. -/
theorem codeByte?_condition_iff :
    text.codeByte? (left ++ "if".toList ++ gap ++ '(' :: condition).width = some ')' ↔
      (Mode.code.after ('(' :: condition)).inCode = true := by
  have whole : text = (left ++ "if".toList ++ gap ++ '(' :: condition) ++
      ')' :: (gap' ++ (body ++ blanks) ++ trailing ++ right) := by
    rw [site.whole, site.matched_eq]
    simp
  have plain : ∀ c ∈ gap, Mode.isPlain c = true := fun c listed => site.plain c (by simp [listed])
  rw [whole, Text.codeByte?_width_eq_some_iff _ _ rfl rfl, Mode.after_append, Mode.after_append,
    site.after_keyword, Mode.code_after_of_isPlain plain]

/-- The brace that opens the block is code when the parenthesis behind the condition is, as only a
blank stands between them. -/
theorem codeByte?_brace_iff :
    (Repair.run text [finding]).text.codeByte?
        (left ++ "if (".toList ++ condition ++ ") ".toList).width = some '\x7b' ↔
      (Mode.code.after ('(' :: condition)).inCode = true := by
  have whole : (Repair.run text [finding]).text =
      (left ++ "if (".toList ++ condition ++ ") ".toList) ++
        '\x7b' :: ([' '] ++ body ++ (final ++ " \x7d".toList) ++ trailing ++ right) := by
    rw [← site.after_eq]
    simp [wrappedParts, headParts, blockParts, Part.new]
  have mode : Mode.code.after (left ++ "if (".toList ++ condition ++ ") ".toList) =
      (Mode.code.after ('(' :: condition)).after ") ".toList := by
    have regrouped : left ++ "if (".toList ++ condition ++ ") ".toList =
        left ++ "if".toList ++ [' '] ++ '(' :: condition ++ ") ".toList := by simp
    rw [regrouped, Mode.after_append, Mode.after_append, Mode.after_append, site.after_keyword]
    rfl
  rw [whole, Text.codeByte?_width_eq_some_iff _ _ rfl rfl, mode,
    Mode.inCode_after (Mode.proper_code_after _) (List.all_eq_true.mp (by decide))]

/-- Where the condition ends in code, the body is wrapped behind it, and what is dropped around it
is blank. -/
theorem frame (coded : (Mode.code.after ('(' :: condition)).inCode = true) :
    Frame (headParts left gap condition gap') body blanks final (trailing ++ right) := by
  obtain ⟨⟨inGap, inGap'⟩, inBlanks⟩ : ((∀ c ∈ gap, Mode.isPlain c = true) ∧
      ∀ c ∈ gap', Mode.isPlain c = true) ∧ ∀ c ∈ blanks, Mode.isPlain c = true := by
    simpa only [List.forall_mem_append] using site.plain
  obtain ⟨⟨isGap, isGap'⟩, isBlanks⟩ : ((∀ c ∈ gap, isBlank c = true) ∧
      ∀ c ∈ gap', isBlank c = true) ∧ ∀ c ∈ blanks, isBlank c = true := by
    simpa only [List.forall_mem_append] using site.blank
  have closed : Mode.code.after ('(' :: condition ++ [')']) = .code := by
    rw [Mode.after_append]
    exact Mode.after_of_inCode coded (by simp) (List.all_eq_true.mp (by decide))
  refine ⟨⟨isBlanks, inBlanks, site.unbraced, site.open', site.ending, site.follows⟩, ?_,
    fun kind => ?_⟩
  · simp only [headParts, settled_cons, Part.old, Part.new]
    exact ⟨⟨site.after_keyword, site.after_keyword⟩, ⟨Mode.code_after_of_isPlain inGap, rfl⟩,
      ⟨rfl, rfl⟩, ⟨closed, closed⟩, ⟨Mode.code_after_of_isPlain inGap', rfl⟩, settled_nil⟩
  · have silent {gap : Text} (blank : ∀ c ∈ gap, isBlank c = true) :
        ∀ c ∈ gap, kind.isSide c = false :=
      fun c listed => isSide_of_isBlank kind (blank c listed)
    have one : kind.isSide ' ' = false := isSide_of_isBlank kind rfl
    simpa [headParts, one] using ⟨silent isGap, silent isGap'⟩

end BodySite

/-- Wrapping the body of an `if` puts a pair of braces into the code of the text and leaves
every other pair as it is, exactly when the parenthesis taken for the end of the condition is
code. -/
theorem braces_pair_iff (checker : Checker) (text : Text) (finding : Finding)
    (member : finding ∈ checker.ruleFindings text bareIf) :
    ∃ left gap condition gap' body blanks final trailing right,
      Wraps finding text left gap condition gap' body blanks final trailing right ∧
      let parts := wrappedParts left gap condition gap' body blanks final trailing right
      let mended := (Repair.run text [finding]).text
      let opened := (left ++ "if (".toList ++ condition ++ ") ".toList).width
      let closed :=
        (left ++ "if (".toList ++ condition ++ ") \x7b ".toList ++ body ++ final ++ [' ']).width
      parts.before = text ∧ parts.after = mended ∧
      ((mended.codeByte? opened = some '\x7b' ∧ mended.codeByte? closed = some '\x7d' ∧
          mended.layout.matchingClose? opened = some closed ∧
          ∀ opened' closed', text.layout.matchingClose? opened' = some closed' →
            parts.keeps opened' = true ∧ parts.keeps closed' = true ∧
              mended.layout.matchingClose? (parts.moved opened') = some (parts.moved closed')) ↔
        text.codeByte? (left ++ "if".toList ++ gap ++ '(' :: condition).width = some ')') := by
  obtain ⟨left, gap, condition, gap', body, blanks, final, trailing, right, site⟩ :=
    exists_bodySite member
  refine ⟨left, gap, condition, gap', body, blanks, final, trailing, right, site.toWraps, ?_⟩
  intro parts mended opened closed
  refine ⟨site.before_eq, site.after_eq, ?_⟩
  rw [site.codeByte?_condition_iff, ← site.codeByte?_brace_iff]
  constructor
  · exact And.left
  · intro opens
    have frame := site.frame (site.codeByte?_brace_iff.mp opens)
    obtain ⟨-, closes, together, others, -⟩ := frame.matchingClose?_iff
    have before : (framedParts (headParts left gap condition gap') body blanks final
        (trailing ++ right)).before = text := site.before_eq
    have after : (framedParts (headParts left gap condition gap') body blanks final
        (trailing ++ right)).after = mended := site.after_eq
    have opened_eq : (headParts left gap condition gap').after.width + 1 = opened := by
      have widths : Text.width [')'] = 1 ∧ Text.width ") ".toList = 2 := ⟨rfl, rfl⟩
      simp only [opened, after_headParts, Text.width_append, widths]
    have closed_eq : (headParts left gap condition gap').after.width + 3 + body.width +
        final.width + 1 = closed := by
      have widths : Text.width [')'] = 1 ∧ Text.width ") \x7b ".toList = 4 ∧
        Text.width [' '] = 1 := ⟨rfl, rfl, rfl⟩
      simp only [closed, after_headParts, Text.width_append, widths]
    rw [before, after] at others
    rw [after, closed_eq] at closes
    rw [after, opened_eq, closed_eq] at together
    exact ⟨opens, closes, together, others⟩

/-- A condition with braces of its own, in a literal and outside. The brace in the literal takes no
part in the pairs. -/
theorem braces_pair_behind_braces :
    let checker : Checker := ⟨⟨[bareIf]⟩, fun _ => .failed, .none⟩
    let text : Text := "if(f(\x7ba: \"é\x7b\"\x7d))  g([b]) \n".toList
    ∃ finding ∈ checker.ruleFindings text bareIf,
      ∃ left gap condition gap' body blanks final trailing right,
        Wraps finding text left gap condition gap' body blanks final trailing right ∧
        (Repair.run text [finding]).text.layout.matchingClose?
            (left ++ "if (".toList ++ condition ++ ") ".toList).width =
          some (left ++ "if (".toList ++ condition ++ ") \x7b ".toList ++ body ++ final ++
            [' ']).width := by
  intro checker text
  have found : ((checker.ruleFindings text bareIf).any fun finding =>
      finding.offset == 0 && finding.matched == "if(f(\x7ba: \"é\x7b\"\x7d))  g([b]) ".toList &&
        groupText? finding.groups 1 == some "f(\x7ba: \"é\x7b\"\x7d)".toList) = true := by
    decide +kernel
  obtain ⟨finding, member, holds⟩ := List.any_eq_true.mp found
  simp only [Bool.and_eq_true, beq_iff_eq] at holds
  obtain ⟨⟨offset, matched⟩, group⟩ := holds
  obtain ⟨left, gap, condition, gap', body, blanks, final, trailing, right, wraps, -, -, braces⟩ :=
    braces_pair_iff checker text finding member
  refine ⟨finding, member, left, gap, condition, gap', body, blanks, final, trailing, right, wraps,
    (braces.mpr ?_).2.2.1⟩
  obtain rfl : left = [] := (Text.width_eq_zero_iff left).mp (wraps.place.trans offset)
  obtain rfl := Option.some.inj (group.symm.trans wraps.grouped.1)
  obtain rfl : gap = [] := by
    cases gap with
    | nil => rfl
    | cons c gap =>
      have first := congrArg (·[2]?) (wraps.matched_eq.symm.trans matched)
      obtain rfl : c = '(' := by simpa using first
      exact absurd (wraps.blank '(' (by simp)) (by decide)
  decide +kernel

/-- A parenthesis in a literal of the condition is taken for its end, and the brace ends up in
that literal. -/
theorem brace_lands_in_literal :
    let checker : Checker := ⟨⟨[bareIf]⟩, fun _ => .failed, .none⟩
    let text : Text := "if (a == \")\\\"\") b()\n".toList
    let mended : Text := "if (a == \") \x7b \\\"\") b(); \x7d\n".toList
    (∃ finding ∈ checker.ruleFindings text bareIf, (Repair.run text [finding]).text = mended) ∧
      mended.byteAt? 12 = some '\x7b' ∧ mended.layout.kindAt? 12 = some .literal ∧
      mended.layout.matchingClose? 12 = none := by
  intro checker text mended
  have found : ((checker.ruleFindings text bareIf).any fun finding =>
      (Repair.run text [finding]).text == mended) = true := by
    decide +kernel
  obtain ⟨finding, member, holds⟩ := List.any_eq_true.mp found
  exact ⟨⟨finding, member, beq_iff_eq.mp holds⟩, by decide +kernel, by decide +kernel,
    by decide +kernel⟩

end Block

end ScriptCheck
