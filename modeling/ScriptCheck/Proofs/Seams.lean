import ScriptCheck.Proofs.Literals

/-!
# Kinds by modes, and the seams of a text

The region that a byte belongs to is found by looking ahead. Its kind is known from the
mode in front of the character: what is not code belongs to a comment, or to a literal that
is closed or broken off further on.

A seam is a place at which a text goes on in code and nothing in front of it says how. What
stands on either side of a seam is laid out as if it stood alone. So an edit that leaves
seams around what it changes leaves the kinds of everything else alone.
-/

namespace ScriptCheck

open Segment

/-- The kind of the region that the byte at an offset belongs to. -/
def Layout.kindAt? (layout : Layout) (offset : Nat) : Option Kind :=
  (layout.regionAt? offset).map Region.kind

namespace Mode

/-- Whether the literal that is open is closed further on, and not broken off before. -/
def isClosedBy (mode : Mode) : Text → Bool
  | [] => false
  | c :: rest => mode.closes c || !mode.breaks c && (mode.step c).isClosedBy rest

/-- The kind of a character, given what follows it. -/
def kindOf (mode : Mode) (c : Char) (rest : Text) : Kind :=
  if mode.showsCode c rest.head? then .code
  else if mode.inLiteral || (mode.step c).inLiteral then
    if mode.closes c || (mode.step c).isClosedBy rest then .literal else .unterminated
  else .comment

variable {mode : Mode} {front back rest text : Text} {c quote : Char}

/-! ### Open literals -/

/-- The newline that breaks a literal off is code again. -/
theorem breaks_eq_showsCode (inside : mode.inLiteral = true) (c : Char) (next : Option Char) :
    mode.breaks c = mode.showsCode c next := by
  cases mode with
  | quoted | escaped => rfl
  | _ => cases inside

/-- A literal goes on until it is closed or broken off. -/
theorem inLiteral_step (inside : mode.inLiteral = true) (unclosed : mode.closes c = false)
    (unbroken : mode.breaks c = false) : (mode.step c).inLiteral = true := by
  cases mode with
  | quoted quote =>
    have notQuote : c ≠ quote := by simpa [closes] using unclosed
    have notEnd : ¬(c = '\n' ∧ quote ≠ backquote) := by simpa [breaks] using unbroken
    simp only [step, notQuote, notEnd, or_self, ↓reduceIte]
    split <;> rfl
  | escaped => rfl
  | _ => cases inside

/-- No character of a stretch closes a literal or breaks it off. -/
def Continues (mode : Mode) (front : Text) : Prop :=
  ∀ before d after, front = before ++ d :: after →
    (mode.after before).closes d = false ∧ (mode.after before).breaks d = false

/-- Over such a stretch a literal stays open, and is closed behind it or not at all. -/
theorem Continues.isClosedBy (continues : mode.Continues front) (inside : mode.inLiteral = true)
    (rest : Text) :
    (mode.after front).inLiteral = true ∧
      mode.isClosedBy (front ++ rest) = (mode.after front).isClosedBy rest := by
  induction front generalizing mode with
  | nil => exact ⟨inside, rfl⟩
  | cons c front ih =>
    obtain ⟨unclosed, unbroken⟩ := continues [] c front rfl
    rw [after_nil] at unclosed unbroken
    have further : (mode.step c).Continues front := fun before d after split =>
      continues (c :: before) d after (by rw [split]; rfl)
    obtain ⟨stays, same⟩ := ih further (inLiteral_step inside unclosed unbroken)
    refine ⟨stays, ?_⟩
    rw [List.cons_append, Mode.isClosedBy, unclosed, unbroken, same]
    rfl

/-- Whether a literal is closed is what the search for its end finds. The induction is that of the
search. -/
theorem isClosedBy_literalTail (mark : isQuote quote = true) (text : Text) :
    (quoted quote).isClosedBy text = (literalTail quote text).2 := by
  have notBackslash : '\\' ≠ quote := by
    rintro rfl
    cases mark
  fun_induction literalTail quote text with
  | case1 => rfl
  | case2 => simp [isClosedBy, closes, breaks, notBackslash]
  | case3 c rest tail closed inner ih =>
    rw [inner] at ih
    simp [isClosedBy, closes, breaks, step, notBackslash, ih]
  | case4 rest notLone notEscape => simp [isClosedBy, closes]
  | case5 c rest notLone notEscape notQuote newline =>
    obtain ⟨rfl, narrow⟩ := newline
    simp [isClosedBy, closes, breaks, notQuote, narrow]
  | case6 c rest notLone notEscape notQuote notEnd tail closed inner ih =>
    rw [inner] at ih
    have notBackslash' : c ≠ '\\' := by
      rintro rfl
      cases rest with
      | nil => exact notLone rfl rfl
      | cons d rest => exact notEscape d rest rfl rfl
    have stays : (quoted quote).step c = quoted quote := by
      simp only [step, notBackslash', ↓reduceIte, notQuote, false_or, notEnd]
    have goesOn : (quoted quote).breaks c = false := by
      simpa [breaks] using notEnd
    simp [isClosedBy, closes, notQuote, goesOn, stays, ih]

/-- In front of its last character a literal is open, as only the last one may close it. -/
theorem continues_literalTail (mark : isQuote quote = true)
    (split : (literalTail quote text).1 = front ++ c :: back) :
    (quoted quote).Continues front := by
  intro before d after front_eq
  have split' : (literalTail quote text).1 = before ++ d :: (after ++ c :: back) := by
    rw [split, front_eq]
    simp
  constructor
  · rw [← Bool.not_eq_true, closes_literalTail mark split']
    rintro ⟨-, last⟩
    simp at last
  · obtain ⟨rest, -, marked, -⟩ := quoted_literalTail quote text mark
    rw [split'] at marked
    have hidden := showsCode_of_marked marked
    cases inside : ((quoted quote).after before).inLiteral with
    | false => exact breaks_of_not_inLiteral inside
    | true => rw [breaks_eq_showsCode inside, hidden]

/-! ### The kind of a character -/

/-- A character that shows as code is of the kind of code. -/
theorem kindOf_of_showsCode (shown : mode.showsCode c rest.head? = true) :
    mode.kindOf c rest = .code := by
  simp [kindOf, shown]

/-- A character of a comment. -/
theorem kindOf_of_quiet (hidden : mode.showsCode c rest.head? = false)
    (outside : mode.inLiteral = false) (outside' : (mode.step c).inLiteral = false) :
    mode.kindOf c rest = .comment := by
  simp [kindOf, hidden, outside, outside']

/-- A character of an open literal. -/
theorem kindOf_of_inLiteral (hidden : mode.showsCode c rest.head? = false)
    (inside : mode.inLiteral = true) :
    mode.kindOf c rest = if mode.isClosedBy (c :: rest) then .literal else .unterminated := by
  have unbroken : mode.breaks c = false := by rw [breaks_eq_showsCode inside, hidden]
  simp [kindOf, hidden, inside, isClosedBy, unbroken]

/-- The quote that opens a literal. -/
theorem kindOf_of_opens (hidden : mode.showsCode c rest.head? = false)
    (unclosed : mode.closes c = false) (opens : mode.step c = quoted c) :
    mode.kindOf c rest = if (quoted c).isClosedBy rest then .literal else .unterminated := by
  have inside : (quoted c).inLiteral = true := rfl
  simp [kindOf, hidden, unclosed, opens, inside]

/-- Within a literal nothing goes on behind a slash. -/
theorem inLiteral_of_step_slash (slashed : mode.step c = slash) : mode.inLiteral = false := by
  cases mode with
  | quoted quote =>
    simp only [step] at slashed
    repeat' split at slashed
    all_goals cases slashed
  | escaped => cases slashed
  | _ => rfl

/-- The characters of a comment or literal are of its kind. The cases are the two comments, and
literals with an end or without. -/
theorem kindOf_of_opening? {segment : Segment} (opened : opening? text = some segment)
    (whole : text = segment.body ++ rest) (proper : mode.Proper) (resumes : mode.Resumes text)
    (split : segment.body = front ++ c :: back) :
    (mode.after front).kindOf c (back ++ rest) = segment.kind := by
  have hidden (notCode : segment.kind ≠ .code) :
      (mode.after front).showsCode c (back ++ rest).head? = false := by
    obtain ⟨rest', whole', passes⟩ := passes_of_opening? opened resumes
    obtain rfl : rest = rest' := by simpa [whole] using whole'
    have marked := passes.marked
    rw [decide_eq_false notCode, split] at marked
    exact showsCode_of_marked marked
  have resumes' : mode.Resumes (front ++ (c :: back ++ rest)) := by
    rwa [whole, split, List.append_assoc] at resumes
  have later (present : front ≠ []) : mode.after front = code.after front :=
    after_of_resumes resumes' present
  have behind : (mode.after front).step c = code.after (front ++ [c]) := by
    have same := @after_of_resumes mode (front ++ [c]) (back ++ rest) (by simpa using resumes')
      (by simp)
    rwa [after_append, after_cons, after_nil] at same
  have silent (quiet : code.Quiet segment.body) (slashed : segment.body.head? = some '/')
      (comment : segment.kind = .comment) :
      (mode.after front).kindOf c (back ++ rest) = segment.kind := by
    rw [comment]
    apply kindOf_of_quiet (hidden (by simp [comment]))
    · by_cases first : front = []
      · subst first
        obtain rfl : c = '/' := by simpa [split] using slashed
        obtain ⟨step, -⟩ := resumes' '/' rfl
        exact inLiteral_of_step_slash step
      · rw [later first]
        exact quiet front (c :: back) split
    · rw [behind]
      exact quiet (front ++ [c]) back (by simp [split])
  fun_cases opening? text with
  | case1 tail =>
    obtain rfl := Option.some.inj opened
    exact silent (.cons rfl (.cons rfl (quiet_line tail))) rfl rfl
  | case2 tail =>
    obtain rfl := Option.some.inj opened
    exact silent (.cons rfl (.cons rfl (quiet_block tail block (.inl rfl)))) rfl rfl
  | case3 quote tail notLine notBlock mark body closed inner =>
    simp only [opening?, mark, ↓reduceIte, inner, Option.some.injEq] at opened
    obtain rfl := opened
    have hidden := hidden (by cases closed <;> simp)
    have notSlash : quote ≠ '/' := by
      rintro rfl
      cases mark
    have quoting : code.step quote = quoted quote := by simp [step, notSlash, mark]
    have closing := isClosedBy_literalTail mark tail
    rw [inner] at closing
    cases front with
    | nil =>
      obtain ⟨rfl, rfl⟩ : quote = c ∧ body = back := by simpa using split
      obtain rfl : tail = body ++ rest := by simpa using whole
      rw [after_nil] at hidden ⊢
      rw [kindOf_of_opens hidden (closes_of_resumes proper resumes)
        ((resumes quote rfl).1.trans quoting), closing]
    | cons d front =>
      obtain ⟨rfl, further⟩ : quote = d ∧ body = front ++ c :: back := by simpa using split
      obtain rfl : tail = front ++ (c :: back ++ rest) := by
        rw [further] at whole
        simpa using whole
      have continues : (quoted quote).Continues front :=
        continues_literalTail mark (by rw [inner]; exact further)
      obtain ⟨inside, same⟩ := continues.isClosedBy rfl (c :: back ++ rest)
      rw [later (by simp), after_cons, quoting] at hidden ⊢
      rw [kindOf_of_inLiteral hidden inside, ← List.cons_append, ← same, closing]
  | case4 quote tail notLine notBlock mark => simp [opening?, mark] at opened
  | case5 => simp [opening?] at opened

end Mode

/-- The characters of a segment are of its kind, be it code or something that opens. -/
theorem Laid.kindOf_eq {segment : Segment} {others : List Segment} {rest front back : Text}
    {c : Char} (laid : Laid (segment.body ++ rest) (segment :: others)) {mode : Mode}
    (proper : mode.Proper) (resumes : mode.Resumes (segment.body ++ rest))
    (split : segment.body = front ++ c :: back) :
    (mode.after front).kindOf c (back ++ rest) = segment.kind := by
  obtain ⟨rest', whole, -, passes⟩ := laid.first resumes
  obtain rfl : rest = rest' := by simpa using whole
  generalize text : segment.body ++ rest = text at laid
  generalize listed : segment :: others = segments at laid
  cases laid with
  | done => cases listed
  | opened opening further =>
    obtain ⟨rfl, -⟩ := List.cons.inj listed
    rw [text] at resumes
    exact Mode.kindOf_of_opening? opening text.symm proper resumes split
  | code present plain ends further =>
    obtain ⟨rfl, -⟩ := List.cons.inj listed
    have marked := passes.marked
    rw [split] at marked
    exact Mode.kindOf_of_showsCode (by simpa using Mode.showsCode_of_marked marked)

namespace Text

/-- The kind of a byte is known from the mode in front of it. -/
theorem kindAt?_layout_byte (left right : Text) (c : Char) {byte : Nat}
    (inside : byte < c.utf8Size) :
    (left ++ c :: right).layout.kindAt? (left.width + byte) =
      some ((Mode.code.after left).kindOf c right) := by
  obtain ⟨above, front, back, rest, segment, others, rfl, rfl, body, laid, resumes, region⟩ :=
    exists_region left right c inside
  rw [Layout.kindAt?, region, Mode.after_append,
    laid.kindOf_eq (Mode.proper_code_after above) resumes body]
  rfl

/-! ### Seams -/

/-- Code goes on from one text to the next: nothing is open behind the first, and the two
do not make a comment mark together. -/
structure Seam (front rest : Text) : Prop where
  inside : (Mode.code.after front).inCode = true
  resumes : (Mode.code.after front).Resumes rest

end Text

namespace Mode

variable {mode : Mode} {right rest : Text} {c : Char}

/-- A literal that is closed or broken off within a stretch is so whatever follows the stretch. -/
theorem isClosedBy_append (inside : mode.inLiteral = true)
    (outside : (mode.after right).inLiteral = false) :
    mode.isClosedBy (right ++ rest) = mode.isClosedBy right := by
  induction right generalizing mode with
  | nil =>
    rw [after_nil, inside] at outside
    cases outside
  | cons c right ih =>
    rw [List.cons_append, isClosedBy, isClosedBy]
    cases unclosed : mode.closes c with
    | true => rfl
    | false =>
      cases unbroken : mode.breaks c with
      | true => rfl
      | false =>
        rw [ih (inLiteral_step inside unclosed unbroken) outside]

/-- Only a slash asks what follows it, and at a seam nothing makes it a comment mark. -/
theorem showsCode_append (resumes : (mode.after (c :: right)).Resumes rest) :
    mode.showsCode c (right ++ rest).head? = mode.showsCode c right.head? := by
  cases right with
  | cons => rfl
  | nil =>
    cases mode with
    | code =>
      by_cases slashed : c = '/'
      · subst slashed
        cases rest with
        | nil => rfl
        | cons d rest =>
          have step : slash.step d = code.step d := (resumes d rfl).1
          have notSlash : d ≠ '/' := by
            rintro rfl
            cases step
          have notStar : d ≠ '*' := by
            rintro rfl
            cases step
          simp [showsCode, notSlash, notStar]
      · simp [showsCode, slashed]
    | _ => rfl

/-- A character in front of a seam is of the kind it has without the rest. -/
theorem kindOf_append (inside : (mode.after (c :: right)).inCode = true)
    (resumes : (mode.after (c :: right)).Resumes rest) :
    mode.kindOf c (right ++ rest) = mode.kindOf c right := by
  have outside : ((mode.step c).after right).inLiteral = false := inLiteral_of_inCode inside
  rw [kindOf, kindOf, showsCode_append resumes]
  cases shown : mode.showsCode c right.head? with
  | true => rfl
  | false =>
    cases opens : (mode.step c).inLiteral with
    | true => rw [isClosedBy_append opens outside]
    | false =>
      -- A literal is open no more behind the character, so the character closes it.
      cases literal : mode.inLiteral with
      | false => rfl
      | true =>
        have closing : mode.closes c = true := by
          cases unclosed : mode.closes c with
          | true => rfl
          | false =>
            have unbroken : mode.breaks c = false := by rw [breaks_eq_showsCode literal, shown]
            rw [inLiteral_step literal unclosed unbroken] at opens
            cases opens
        rw [closing]
        rfl

/-- A character at a seam is of the kind it has at the start of a text. -/
theorem kindOf_of_resumes (inside : mode.inCode = true) (resumes : mode.Resumes (c :: rest)) :
    mode.kindOf c rest = code.kindOf c rest := by
  obtain ⟨step, shown⟩ := resumes c rfl
  have outside := inLiteral_of_inCode inside
  rw [kindOf, kindOf, step, shown, outside, closes_of_not_inLiteral outside]
  rfl

end Mode

namespace Text.Seam

variable {front rest : Text} {offset : Nat}

/-- What is in front of a seam is laid out as if it stood alone. -/
theorem kindAt?_front (seam : Seam front rest) (inside : offset < front.width) :
    (front ++ rest).layout.kindAt? offset = front.layout.kindAt? offset := by
  obtain ⟨left, c, right, byte, rfl, here, rfl⟩ := exists_char_of_lt inside
  obtain ⟨open', resumes⟩ := seam
  rw [Mode.after_append] at open' resumes
  rw [List.append_assoc, List.cons_append, kindAt?_layout_byte _ _ _ here,
    kindAt?_layout_byte _ _ _ here, Mode.kindOf_append open' resumes]

/-- So is what stands behind it. -/
theorem kindAt?_rest (seam : Seam front rest) (inside : offset < rest.width) :
    (front ++ rest).layout.kindAt? (front.width + offset) = rest.layout.kindAt? offset := by
  obtain ⟨left, c, right, byte, rfl, here, rfl⟩ := exists_char_of_lt inside
  rw [← Nat.add_assoc, ← width_append, ← List.append_assoc, kindAt?_layout_byte _ _ _ here,
    kindAt?_layout_byte _ _ _ here, Mode.after_append]
  cases left with
  | nil => rw [Mode.after_nil, Mode.kindOf_of_resumes seam.inside seam.resumes, Mode.after_nil]
  | cons d left => rw [Mode.after_of_resumes seam.resumes (by simp)]

/-- The chosen characters of code are those of the two sides. -/
theorem visible (seam : Seam front rest) (keep : Char → Bool) (offset : Nat) :
    Mode.code.visible keep offset (front ++ rest) =
      Mode.code.visible keep offset front ++
        Mode.code.visible keep (offset + front.width) rest := by
  rw [Mode.visible_append, Mode.visible_of_resumes seam.inside seam.resumes]

/-- Behind a text that ends in code anything but the second half of a comment mark. -/
theorem of_head (inside : (Mode.code.after front).inCode = true)
    (head : ∀ c ∈ rest.head?, c ≠ '/' ∧ c ≠ '*') : Seam front rest :=
  ⟨inside, Mode.resumes_of_inCode inside head⟩

/-- Behind a text that ends neither in a comment or literal nor in a slash, anything. -/
theorem of_after_eq (ends : Mode.code.after front = .code) (rest : Text) : Seam front rest := by
  constructor
  · rw [ends]
    rfl
  · rw [ends]
    exact .code rest

end Text.Seam

end ScriptCheck
