import ScriptCheck.Proofs.CodeView
import ScriptCheck.Rule.Semicolon

/-!
# Literals, by modes

A segment is a literal when the quote that opens it comes again, and unterminated when a
newline or the end of the text comes first. The automaton knows the difference too: the
closing quote is read while the literal is open, and so is the newline that breaks a
literal off. Which characters close a literal, and where the first literal without an end
starts, are read off the modes here, and from the former where the text ends in code or in
a literal that is closed.
-/

namespace ScriptCheck

open Segment

namespace Mode

/-- Whether a literal is open. -/
def inLiteral : Mode → Bool
  | quoted _ | escaped _ => true
  | _ => false

/-- Whether a character is the quote that closes the literal it stands in. -/
def closes (c : Char) : Mode → Bool
  | quoted quote => c == quote
  | _ => false

/-- Whether a character is a newline that breaks a literal off. -/
def breaks (c : Char) : Mode → Bool
  | quoted quote => c == '\n' && quote != backquote
  | _ => false

/-- No literal is open anywhere along a stretch. -/
def Quiet (mode : Mode) (body : Text) : Prop :=
  ∀ front back, body = front ++ back → (mode.after front).inLiteral = false

variable {mode : Mode} {body front back rest text : Text} {c quote : Char}

/-- In code no literal is open. -/
theorem inLiteral_of_inCode (inside : mode.inCode = true) : mode.inLiteral = false := by
  cases mode with
  | code | slash => rfl
  | _ => cases inside

/-- Outside of literals no character closes one. -/
theorem closes_of_not_inLiteral (outside : mode.inLiteral = false) : mode.closes c = false := by
  cases mode with
  | quoted | escaped => cases outside
  | _ => rfl

/-- Outside of literals no newline breaks one off. -/
theorem breaks_of_not_inLiteral (outside : mode.inLiteral = false) : mode.breaks c = false := by
  cases mode with
  | quoted | escaped => cases outside
  | _ => rfl

/-- Only the quote of a literal closes it, with no backslash before. -/
theorem eq_quoted_of_closes (closing : mode.closes c = true) : mode = quoted c := by
  cases mode with
  | quoted quote => rw [beq_iff_eq.mp closing]
  | _ => cases closing

/-- The quote of a literal is no code where it closes the literal. -/
theorem showsCode_of_closes (proper : mode.Proper) (closing : mode.closes c = true)
    (next : Option Char) : mode.showsCode c next = false := by
  obtain rfl := eq_quoted_of_closes closing
  have notNewline : c ≠ '\n' := by
    rintro rfl
    cases proper
  simp [showsCode, notNewline]

/-- Where code resumes no literal is closed: the character there shows as code or opens
something. -/
theorem closes_of_resumes (proper : mode.Proper) (resumes : mode.Resumes (c :: rest)) :
    mode.closes c = false := by
  cases closing : mode.closes c with
  | false => rfl
  | true =>
    obtain rfl := eq_quoted_of_closes closing
    have mark : isQuote c = true := proper
    have notBackslash : c ≠ '\\' := by
      rintro rfl
      cases mark
    have notSlash : c ≠ '/' := by
      rintro rfl
      cases mark
    simpa [step, notBackslash, notSlash, mark] using (resumes c rfl).1

/-- Behind its first character, a stretch is read as in code. -/
theorem after_of_resumes (resumes : mode.Resumes (front ++ rest)) (present : front ≠ []) :
    mode.after front = code.after front := by
  obtain ⟨c, front, rfl⟩ := List.exists_cons_of_ne_nil present
  rw [after_cons, after_cons, (resumes c rfl).1]

/-! ### Stretches without literals -/

/-- Along an empty stretch no literal opens. -/
theorem Quiet.nil (outside : mode.inLiteral = false) : mode.Quiet [] := by
  intro front back split
  obtain ⟨rfl, rfl⟩ : front = [] ∧ back = [] := by simpa using split
  exact outside

/-- No literal is open along a stretch if none is at any character. -/
theorem Quiet.cons (outside : mode.inLiteral = false) (quiet : (mode.step c).Quiet body) :
    mode.Quiet (c :: body) := by
  intro front back split
  cases front with
  | nil => exact outside
  | cons d front =>
    obtain ⟨rfl, inner⟩ : c = d ∧ body = front ++ back := by simpa using split
    exact quiet front back inner

/-- No literal is open along a line comment. -/
theorem quiet_line (text : Text) : line.Quiet (text.takeWhile (· ≠ '\n')) := by
  induction text with
  | nil => exact .nil rfl
  | cons c rest ih =>
    by_cases newline : c = '\n'
    · subst newline
      exact .nil rfl
    · rw [List.takeWhile_cons_of_pos (by simpa using newline)]
      refine .cons rfl ?_
      simpa only [step, newline, ↓reduceIte] using ih

/-- No literal is open along a block comment, up to the mark that closes it. The induction is that
of the search for the mark. -/
theorem quiet_block (text : Text) (mode : Mode)
    (inside : mode = block ∨ mode = star ∧ text.head? ≠ some '/') :
    mode.Quiet (throughCommentEnd text) := by
  have outside : mode.inLiteral = false := by rcases inside with rfl | ⟨rfl, -⟩ <;> rfl
  fun_induction throughCommentEnd text generalizing mode with
  | case1 rest =>
    have starred : mode.step '*' = star := by rcases inside with rfl | ⟨rfl, -⟩ <;> rfl
    refine .cons outside ?_
    rw [starred]
    exact .cons rfl (.nil rfl)
  | case2 c rest notEnd ih =>
    have stays := block_step inside notEnd
    have outside' : (mode.step c).inLiteral = false := by
      rcases stays with same | ⟨same, -⟩ <;> rw [same] <;> rfl
    exact .cons outside (ih (mode.step c) stays outside')
  | case3 => exact .nil outside

/-- In code no literal is open. -/
theorem quiet_of_marked (outside : mode.inLiteral = false) (marked : Marked true mode body rest) :
    mode.Quiet body := by
  induction body generalizing mode with
  | nil => exact .nil outside
  | cons c body ih =>
    obtain ⟨shown, marked⟩ := marked
    exact .cons outside
      (ih (inLiteral_of_inCode (inCode_step_of_showsCode shown)) marked)

/-! ### The quote that closes a literal -/

/-- In what a literal still takes, the quote that closes it is the last character. A literal that is
broken off has no such quote. -/
theorem closes_literalTail (mark : isQuote quote = true)
    (split : (literalTail quote text).1 = front ++ c :: back) :
    ((quoted quote).after front).closes c = true ↔
      (literalTail quote text).2 = true ∧ back = [] := by
  -- The tail of a closed literal is not empty, so that there is more than its last character.
  have goesOn (rest : Text) (closed : (literalTail quote rest).2 = true) :
      (literalTail quote rest).1 ≠ [] := by
    obtain ⟨_, -, -, -, ends⟩ := quoted_literalTail quote rest mark
    obtain ⟨-, init, last⟩ := ends closed
    simp [last]
  have notBackslash : quote ≠ '\\' := by
    rintro rfl
    cases mark
  fun_induction literalTail quote text generalizing front with
  | case1 => simp at split
  | case2 =>
    cases front with
    | nil =>
      obtain ⟨rfl, rfl⟩ : '\\' = c ∧ [] = back := by simpa using split
      simp [closes, notBackslash.symm]
    | cons e front => simp at split
  | case3 d rest tail closed inner ih =>
    have goesOn' := goesOn rest
    rw [inner] at ih goesOn'
    cases front with
    | nil =>
      obtain ⟨rfl, rfl⟩ : '\\' = c ∧ d :: tail = back := by simpa using split
      simp [closes, notBackslash.symm]
    | cons e front =>
      cases front with
      | nil =>
        obtain ⟨rfl, rfl, rfl⟩ : '\\' = e ∧ d = c ∧ tail = back := by simpa using split
        simpa [step, closes] using goesOn'
      | cons e' front =>
        obtain ⟨rfl, rfl, further⟩ : '\\' = e ∧ d = e' ∧ tail = front ++ c :: back := by
          simpa using split
        exact @ih front further
  | case4 rest notLone notEscape =>
    obtain ⟨rfl, rfl, rfl⟩ : front = [] ∧ c = quote ∧ back = [] := by
      cases front <;> simp_all
    simp [closes]
  | case5 d rest notLone notEscape notQuote newline => simp at split
  | case6 d rest notLone notEscape notQuote notEnd tail closed inner ih =>
    have goesOn' := goesOn rest
    rw [inner] at ih goesOn'
    cases front with
    | nil =>
      obtain ⟨rfl, rfl⟩ : d = c ∧ tail = back := by simpa using split
      simpa [closes, notQuote] using goesOn'
    | cons e front =>
      obtain ⟨rfl, further⟩ : d = e ∧ tail = front ++ c :: back := by simpa using split
      have notBackslash' : d ≠ '\\' := by
        rintro rfl
        cases rest with
        | nil => exact notLone rfl rfl
        | cons e rest => exact notEscape e rest rfl rfl
      have stays : (quoted quote).step d = quoted quote := by
        simp only [step, notBackslash', ↓reduceIte, notQuote, false_or, notEnd]
      rw [after_cons, stays]
      exact ih further

/-- In a comment or literal, a character behind the first closes a literal only if it is the
last character of one. -/
theorem closes_of_opening? {segment : Segment} (opened : opening? text = some segment)
    (split : segment.body = front ++ c :: back) (present : front ≠ []) :
    (code.after front).closes c = true ↔ segment.kind = .literal ∧ back = [] := by
  have silent (quiet : code.Quiet segment.body) (comment : segment.kind = .comment) :
      (code.after front).closes c = true ↔ segment.kind = .literal ∧ back = [] := by
    rw [closes_of_not_inLiteral (quiet front (c :: back) split), comment]
    simp
  fun_cases opening? text with
  | case1 rest =>
    obtain rfl := Option.some.inj opened
    exact silent (.cons rfl (.cons rfl (quiet_line rest))) rfl
  | case2 rest =>
    obtain rfl := Option.some.inj opened
    exact silent (.cons rfl (.cons rfl (quiet_block rest block (.inl rfl)))) rfl
  | case3 quote rest notLine notBlock mark tail closed inner =>
    simp only [opening?, mark, ↓reduceIte, inner, Option.some.injEq] at opened
    obtain rfl := opened
    obtain ⟨d, front, rfl⟩ := List.exists_cons_of_ne_nil present
    obtain ⟨rfl, further⟩ : quote = d ∧ tail = front ++ c :: back := by simpa using split
    have notSlash : quote ≠ '/' := by
      rintro rfl
      cases mark
    have quoting : code.step quote = quoted quote := by simp [step, notSlash, mark]
    have closes' := @closes_literalTail front back rest c quote mark (by rw [inner]; exact further)
    rw [after_cons, quoting, closes', inner]
    cases closed <;> simp
  | case4 quote rest notLine notBlock mark => simp [opening?, mark] at opened
  | case5 => simp [opening?] at opened

end Mode

/-- A character closes a literal exactly when it is the last of a literal segment. The segment is
read to this character in the modes of the scan. -/
theorem Laid.closes_iff {segment : Segment} {others : List Segment} {rest front back : Text}
    {c : Char} (laid : Laid (segment.body ++ rest) (segment :: others)) {mode : Mode}
    (proper : mode.Proper) (resumes : mode.Resumes (segment.body ++ rest))
    (split : segment.body = front ++ c :: back) :
    (mode.after front).closes c = true ↔ segment.kind = .literal ∧ back = [] := by
  obtain ⟨rest', whole, -, passes⟩ := laid.first resumes
  obtain rfl : rest = rest' := by simpa using whole
  by_cases first : front = []
  · subst first
    rw [split] at resumes
    have opens := Mode.closes_of_resumes proper resumes
    constructor
    · intro closing
      rw [Mode.after_nil, opens] at closing
      cases closing
    · rintro ⟨literal, rfl⟩
      -- A literal has a second character, since its quote opens another one in code.
      obtain ⟨back, init, quote, mark, last⟩ := passes.literal literal
      rw [split] at last back
      obtain ⟨rfl, rfl⟩ : init = [] ∧ c = quote := by
        cases init <;> simp_all
      have notSlash : c ≠ '/' := by
        rintro rfl
        cases mark
      rw [Mode.after_of_resumes resumes (by simp)] at back
      simp [Mode.step, notSlash, mark] at back
  · have resumes' := resumes
    rw [split, List.append_assoc] at resumes'
    rw [Mode.after_of_resumes resumes' first]
    generalize text : segment.body ++ rest = text at laid
    generalize listed : segment :: others = segments at laid
    cases laid with
    | done => cases listed
    | opened opening further =>
      obtain ⟨rfl, -⟩ := List.cons.inj listed
      exact Mode.closes_of_opening? opening split first
    | code present plain ends further =>
      obtain ⟨rfl, -⟩ := List.cons.inj listed
      have marked := passes.marked
      rw [split] at marked
      have shown := Mode.showsCode_of_marked marked
      constructor
      · intro closing
        rw [Mode.after_of_resumes resumes' first,
          Mode.showsCode_of_closes (Mode.proper_code_after front) closing] at shown
        simp at shown
      · rintro ⟨literal, -⟩
        cases literal

/-- The text in front of an offset ends in code or in a literal when its last character is
code or closes a literal. -/
theorem Semicolon.endsInCode_layout (left right : Text) (c : Char) :
    endsInCode (left ++ c :: right).layout (left.width + c.utf8Size)
        (left.width + c.utf8Size - 1) =
      ((Mode.code.after left).showsCode c right.head? || (Mode.code.after left).closes c) := by
  have inside : c.utf8Size - 1 < c.utf8Size := Nat.sub_lt c.utf8Size_pos Nat.one_pos
  have last : left.width + c.utf8Size - 1 = left.width + (c.utf8Size - 1) :=
    Nat.add_sub_assoc c.utf8Size_pos _
  have shown := Text.inCode_layout_byte left right c inside
  obtain ⟨above, front, back, rest, segment, others, rfl, rfl, body, laid, resumes, region⟩ :=
    Text.exists_region left right c inside
  have closing := laid.closes_iff (Mode.proper_code_after above) resumes body
  rw [← Mode.after_append] at closing
  rw [Layout.inCode, region] at shown
  have ends : ((above ++ segment.body).width == (above ++ front).width + c.utf8Size) =
      decide (back = []) := by
    have wide := Text.width_eq_zero_iff back
    rw [body, ← List.append_assoc, Text.width_append, Text.width_cons, Bool.eq_iff_iff,
      decide_eq_true_iff, beq_iff_eq, ← wide]
    omega
  have closes : (Mode.code.after (above ++ front)).closes c =
      decide (segment.kind = .literal ∧ back = []) := by
    rw [Bool.eq_iff_iff, closing, decide_eq_true_iff]
  rw [endsInCode, last, region, ← shown, closes]
  cases kind : segment.kind with
  | literal => simpa [kind] using ends
  | _ => simp

/-! ### The first literal without an end -/

namespace Mode

/-- Where the first literal starts that a newline or the end of the text breaks off. `opened`
is where the literal starts that is open, if one is. -/
def broken? (mode : Mode) (opened offset : Nat) : Text → Option Nat
  | [] => if mode.inLiteral then some opened else none
  | c :: rest =>
    if mode.breaks c then
      some opened
    else
      (mode.step c).broken? (if mode.inLiteral then opened else offset) (offset + c.utf8Size) rest

variable {mode : Mode} {body rest text : Text} {quote : Char}

/-- Outside of literals, only one that opens here starts here. -/
theorem broken?_cons (outside : mode.inLiteral = false) (opened offset : Nat) (c : Char)
    (rest : Text) :
    mode.broken? opened offset (c :: rest) =
      (mode.step c).broken? offset (offset + c.utf8Size) rest := by
  simp [broken?, outside, breaks_of_not_inLiteral]

/-- Outside of literals it does not matter where the last started. -/
theorem broken?_congr (outside : mode.inLiteral = false) (opened opened' offset : Nat)
    (text : Text) : mode.broken? opened offset text = mode.broken? opened' offset text := by
  cases text with
  | nil => simp [broken?, outside]
  | cons c rest => rw [broken?_cons outside, broken?_cons outside]

/-- A stretch without literals is passed over. -/
theorem broken?_of_quiet (quiet : mode.Quiet body) (opened opened' offset : Nat) :
    mode.broken? opened offset (body ++ rest) =
      (mode.after body).broken? opened' (offset + body.width) rest := by
  have outside : mode.inLiteral = false := quiet [] body rfl
  induction body generalizing mode opened offset with
  | nil => exact broken?_congr outside _ _ _ rest
  | cons c body ih =>
    have quiet' : (mode.step c).Quiet body := fun front back split =>
      quiet (c :: front) back (by rw [split]; rfl)
    rw [List.cons_append, broken?_cons outside, ih quiet' _ _ (quiet' [] body rfl),
      after_cons, Text.width_cons, Nat.add_assoc]

/-- A literal that is closed is passed over, and one that is not is found, with the place where it
was opened. -/
theorem broken?_literalTail (mark : isQuote quote = true) (opened offset : Nat)
    (whole : text = (literalTail quote text).1 ++ rest) :
    (quoted quote).broken? opened offset text =
      if (literalTail quote text).2 then
        code.broken? opened (offset + Text.width (literalTail quote text).1) rest
      else
        some opened := by
  have notBackslash : quote ≠ '\\' := by
    rintro rfl
    cases mark
  have notNewline : quote ≠ '\n' := by
    rintro rfl
    cases mark
  fun_induction literalTail quote text generalizing offset with
  | case1 => rfl
  | case2 => simp [broken?, breaks, step, inLiteral]
  | case3 c rest' tail closed inner ih =>
    rw [inner] at ih
    have further := ih (offset + '\\'.utf8Size + c.utf8Size) (by simpa using whole)
    simpa [broken?, breaks, step, inLiteral, Nat.add_assoc] using further
  | case4 rest' notLone notEscape =>
    obtain rfl : rest' = rest := by simpa using whole
    simp [broken?, breaks, step, inLiteral, notBackslash, notNewline]
  | case5 c rest' notLone notEscape notQuote newline =>
    obtain ⟨rfl, narrow⟩ := newline
    simp [broken?, breaks, narrow]
  | case6 c rest' notLone notEscape notQuote notEnd tail closed inner ih =>
    rw [inner] at ih
    have notBackslash' : c ≠ '\\' := by
      rintro rfl
      cases rest' with
      | nil => exact notLone rfl rfl
      | cons d rest' => exact notEscape d rest' rfl rfl
    have goesOn : (quoted quote).breaks c = false := by
      simpa [breaks] using notEnd
    have stays : (quoted quote).step c = quoted quote := by
      simp only [step, notBackslash', ↓reduceIte, notQuote, false_or, notEnd]
    have further := ih (offset + c.utf8Size) (by simpa using whole)
    simpa [broken?, goesOn, stays, inLiteral, Nat.add_assoc] using further

/-- A comment or literal that opens in code is passed over, unless it is a literal without an
end. -/
theorem broken?_of_opening? {segment : Segment} (opens : opening? text = some segment)
    (whole : text = segment.body ++ rest) (opened offset : Nat) :
    if segment.kind = .unterminated then
      code.broken? opened offset text = some offset
    else
      (code.after segment.body).inLiteral = false ∧
        code.broken? opened offset text =
          (code.after segment.body).broken? opened (offset + segment.body.width) rest := by
  have silent (quiet : code.Quiet segment.body) :
      (code.after segment.body).inLiteral = false ∧
        code.broken? opened offset text =
          (code.after segment.body).broken? opened (offset + segment.body.width) rest :=
    ⟨quiet segment.body [] (by simp), by rw [whole]; exact broken?_of_quiet quiet _ _ _⟩
  fun_cases opening? text with
  | case1 rest =>
    obtain rfl := Option.some.inj opens
    exact silent (.cons rfl (.cons rfl (quiet_line rest)))
  | case2 rest =>
    obtain rfl := Option.some.inj opens
    exact silent (.cons rfl (.cons rfl (quiet_block rest block (.inl rfl))))
  | case3 quote tail notLine notBlock mark body closed inner =>
    simp only [opening?, mark, ↓reduceIte, inner, Option.some.injEq] at opens
    obtain rfl := opens
    have notSlash : quote ≠ '/' := by
      rintro rfl
      cases mark
    have quoting : code.step quote = quoted quote := by simp [step, notSlash, mark]
    have first : code.broken? opened offset (quote :: tail) =
        (quoted quote).broken? offset (offset + quote.utf8Size) tail := by
      rw [broken?_cons rfl, quoting]
    obtain ⟨-, -, -, -, ends⟩ := quoted_literalTail quote tail mark
    have passed := broken?_literalTail mark offset (offset + quote.utf8Size)
      (show tail = (literalTail quote tail).1 ++ rest by simpa [inner] using whole)
    rw [inner] at ends passed
    rw [first, passed]
    cases closed with
    | false => rfl
    | true =>
      have closed : code.after (quote :: body) = code := by
        rw [after_cons, quoting, (ends rfl).1]
      simp only [↓reduceIte, closed, reduceCtorEq, Text.width_cons, Nat.add_assoc]
      exact ⟨rfl, broken?_congr rfl _ _ _ rest⟩
  | case4 quote tail notLine notBlock mark => simp [opening?, mark] at opens
  | case5 => simp [opening?] at opens

end Mode

/-- The first literal without an end is the first that the automaton sees broken off. The induction
is on the segments. -/
theorem Laid.find_unterminated {text : Text} {segments : List Segment} (laid : Laid text segments)
    {mode : Mode} (resumes : mode.Resumes text) (outside : mode.inLiteral = false)
    (opened offset : Nat) :
    ((placeFrom offset segments).find? fun region => region.kind = .unterminated).map
        Region.start = mode.broken? opened offset text := by
  induction laid generalizing mode opened offset with
  | done => simp [placeFrom, Mode.broken?, outside]
  | opened opening further ih =>
    rename_i segment rest others
    obtain ⟨rest', whole, passes⟩ := Mode.passes_of_opening? opening resumes
    obtain rfl : rest = rest' := by simpa using whole
    have first : mode.broken? opened offset (segment.body ++ rest) =
        Mode.code.broken? opened offset (segment.body ++ rest) := by
      obtain ⟨c, body, present⟩ := List.exists_cons_of_ne_nil passes.present
      rw [present] at resumes ⊢
      rw [List.cons_append, Mode.broken?_cons outside, Mode.broken?_cons rfl, (resumes c rfl).1]
    have passed := Mode.broken?_of_opening? opening rfl opened offset
    rw [← first, ← Mode.after_of_resumes resumes passes.present] at passed
    rw [placeFrom, List.find?_cons]
    by_cases kind : segment.kind = .unterminated
    · rw [if_pos kind] at passed
      simp [kind, passed]
    · rw [if_neg kind] at passed
      simp only [kind, decide_false, passed.2]
      exact ih passes.resumes passed.1 _ _
  | code present plain ends further ih =>
    obtain ⟨marked, resumes'⟩ := Mode.marked_of_plain resumes plain
    have quiet := Mode.quiet_of_marked outside marked
    rw [placeFrom, List.find?_cons_of_neg (by simp), Mode.broken?_of_quiet quiet _ opened]
    exact ih resumes' (quiet _ [] (by simp)) _ _

/-- The first literal without an end is found by one walk. -/
theorem Text.unterminated?_eq_broken? (text : Text) :
    text.unterminated? = Mode.code.broken? 0 0 text :=
  text.laid_segments.find_unterminated (.code text) rfl 0 0

end ScriptCheck
