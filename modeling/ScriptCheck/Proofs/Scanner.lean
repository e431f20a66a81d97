import ScriptCheck.Layout
import ScriptCheck.Proofs.Cut

/-!
# Reading code, comments and literals one character at a time

The segments of a text are found by looking ahead to the end of each comment and
literal. Here the same cut is described by an automaton that sees one character at a
time. Its mode after a text is the mode after a front, carried on over the rest, so
that a text can be taken apart anywhere.

Only a slash needs to know what follows it before it can be told to be code. All other
characters are judged by the mode in front of them. Every segment of a text is either
code throughout or no code at all, as the modes along it say; what is not distinguished
here is a comment from a literal, and a literal that is closed from one that is not.
-/

namespace ScriptCheck

/-- What the characters read so far leave open. -/
inductive Mode where
  | code
  /-- In code, behind a slash. -/
  | slash
  | line
  | block
  /-- In a block comment, behind an asterisk. -/
  | star
  | quoted (quote : Char)
  /-- In a literal, behind a backslash that takes the next character along. -/
  | escaped (quote : Char)
  deriving DecidableEq, Repr

namespace Mode

/-- Read one character. -/
def step : Mode → Char → Mode
  | code, c => if c = '/' then slash else if isQuote c then quoted c else code
  | slash, c =>
    if c = '/' then line else if c = '*' then block else if isQuote c then quoted c else code
  | line, c => if c = '\n' then code else line
  | block, c => if c = '*' then star else block
  | star, c => if c = '/' then code else if c = '*' then star else block
  | quoted quote, c =>
    if c = '\\' then escaped quote
    else if c = quote ∨ c = '\n' ∧ quote ≠ backquote then code
    else quoted quote
  | escaped quote, _ => quoted quote

/-- The mode after a text. -/
def after (mode : Mode) (text : Text) : Mode := text.foldl step mode

/-- Whether a character is code, given the one that follows it. -/
def showsCode (c : Char) (next : Option Char) : Mode → Bool
  | code => !isQuote c && !(c == '/' && next.any fun d => d == '/' || d == '*')
  | slash => !isQuote c && c != '/' && c != '*'
  | line => c == '\n'
  | quoted quote => c == '\n' && quote != backquote
  | block | star | escaped _ => false

/-- The characters of a text that are code, with their byte offsets. -/
def scan (mode : Mode) (offset : Nat) : Text → List (Nat × Char)
  | [] => []
  | c :: rest =>
    (if mode.showsCode c rest.head? then [(offset, c)] else []) ++
      (mode.step c).scan (offset + c.utf8Size) rest

/-- Nothing read leaves the mode as it is. -/
@[simp] theorem after_nil (mode : Mode) : mode.after [] = mode := rfl

/-- A text is read by its first character and then by the rest. -/
@[simp] theorem after_cons (mode : Mode) (c : Char) (rest : Text) :
    mode.after (c :: rest) = (mode.step c).after rest := rfl

/-- A text is read part by part. -/
@[simp] theorem after_append (mode : Mode) (front rest : Text) :
    mode.after (front ++ rest) = (mode.after front).after rest := List.foldl_append

/-- In front of the rest, the mode does what the mode of code does. -/
def Resumes (mode : Mode) (rest : Text) : Prop :=
  ∀ c ∈ rest.head?, mode.step c = code.step c ∧
    ∀ next, mode.showsCode c next = code.showsCode c next

/-- All characters of a stretch are code, or none is, when the rest follows it. -/
def Marked (flag : Bool) : Mode → Text → Text → Prop
  | _, [], _ => True
  | mode, c :: body, rest =>
    mode.showsCode c (body ++ rest).head? = flag ∧ Marked flag (mode.step c) body rest

/-- The mode of code does what it does, in front of any rest. -/
theorem Resumes.code (rest : Text) : Resumes .code rest := fun _ _ => ⟨rfl, fun _ => rfl⟩

/-- In front of nothing every mode resumes. -/
theorem Resumes.nil (mode : Mode) : mode.Resumes [] := by simp [Resumes]

/-- A newline brings a line comment and a quoted literal back to code, as it would have
left code alone. -/
theorem Resumes.newline {mode : Mode} {rest : Text} (back : mode.step '\n' = .code)
    (shown : ∀ next, mode.showsCode '\n' next = true) : mode.Resumes ('\n' :: rest) := by
  intro c head
  obtain rfl : '\n' = c := by simpa using head
  exact ⟨back, fun next => shown next⟩

/-- A stretch without code adds nothing to what a scan gives. -/
theorem scan_of_marked_false {mode : Mode} {body rest : Text} (marked : Marked false mode body rest)
    (offset : Nat) :
    mode.scan offset (body ++ rest) = (mode.after body).scan (offset + body.width) rest := by
  induction body generalizing mode offset with
  | nil => simp
  | cons c body ih =>
    obtain ⟨hidden, marked⟩ := marked
    rw [List.cons_append, scan, hidden, ih marked]
    simp [Nat.add_assoc]

/-- A stretch of code is given by a scan as it stands. -/
theorem scan_of_marked_true {mode : Mode} {body rest : Text} (marked : Marked true mode body rest)
    (offset : Nat) :
    mode.scan offset (body ++ rest) =
      body.placedFrom offset ++ (mode.after body).scan (offset + body.width) rest := by
  induction body generalizing mode offset with
  | nil => simp [Text.placedFrom]
  | cons c body ih =>
    obtain ⟨shown, marked⟩ := marked
    rw [List.cons_append, scan, shown, ih marked]
    simp [Text.placedFrom, Nat.add_assoc]

/-- One character of a marked stretch. -/
theorem showsCode_of_marked {flag : Bool} {mode : Mode} {front back rest : Text} {c : Char}
    (marked : Marked flag mode (front ++ c :: back) rest) :
    (mode.after front).showsCode c (back ++ rest).head? = flag := by
  induction front generalizing mode with
  | nil => exact marked.1
  | cons d front ih => exact ih marked.2

/-! ### Comments and literals -/

/-- What a line comment still takes is no code. -/
theorem line_takeWhile (text : Text) :
    Marked false line (text.takeWhile (· ≠ '\n')) (text.dropWhile (· ≠ '\n')) ∧
      (line.after (text.takeWhile (· ≠ '\n'))).Resumes (text.dropWhile (· ≠ '\n')) := by
  induction text with
  | nil => exact ⟨trivial, .nil _⟩
  | cons c rest ih =>
    by_cases newline : c = '\n'
    · subst newline
      exact ⟨trivial, .newline rfl fun _ => rfl⟩
    · simpa [newline, Marked, showsCode, step] using ih

/-- A block comment that does not end here goes on as one. The automaton remembers an
asterisk, the comment looks ahead for the slash; the two agree as long as no slash follows
a remembered asterisk. -/
theorem block_step {mode : Mode} {c : Char} {rest : Text}
    (inside : mode = block ∨ mode = star ∧ (c :: rest).head? ≠ some '/')
    (notEnd : ∀ tail, c = '*' → rest = '/' :: tail → False) :
    mode.step c = block ∨ mode.step c = star ∧ rest.head? ≠ some '/' := by
  have open' : c = '*' → rest.head? ≠ some '/' := by
    rintro rfl slash
    obtain ⟨tail, rfl⟩ : ∃ tail, rest = '/' :: tail := by
      cases rest with
      | nil => simp at slash
      | cons d tail => exact ⟨tail, by simpa using slash⟩
    exact notEnd tail rfl rfl
  by_cases asterisk : c = '*'
  · refine .inr ⟨?_, open' asterisk⟩
    rcases inside with rfl | ⟨rfl, -⟩ <;> simp [step, asterisk]
  · rcases inside with rfl | ⟨rfl, notSlash⟩
    · exact .inl (by simp [step, asterisk])
    · have other : c ≠ '/' := by simpa using notSlash
      exact .inl (by simp [step, asterisk, other])

/-- What a block comment still takes is no code. It ends in code, or with the text. -/
theorem block_throughCommentEnd (text : Text) (mode : Mode)
    (inside : mode = block ∨ mode = star ∧ text.head? ≠ some '/') :
    ∃ rest, text = Segment.throughCommentEnd text ++ rest ∧
      Marked false mode (Segment.throughCommentEnd text) rest ∧
      (mode.after (Segment.throughCommentEnd text)).Resumes rest := by
  have hidden (c : Char) (next : Option Char) : mode.showsCode c next = false := by
    rcases inside with rfl | ⟨rfl, -⟩ <;> rfl
  fun_induction Segment.throughCommentEnd text generalizing mode with
  | case1 rest =>
    have closed : (mode.step '*').step '/' = code := by
      rcases inside with rfl | ⟨rfl, -⟩ <;> rfl
    have starred : (mode.step '*').showsCode '/' rest.head? = false := by
      rcases inside with rfl | ⟨rfl, -⟩ <;> rfl
    refine ⟨rest, rfl, ⟨hidden _ _, starred, trivial⟩, ?_⟩
    rw [after_cons, after_cons, closed]
    exact .code rest
  | case2 c rest notEnd ih =>
    have stays := block_step inside notEnd
    have hidden' (d : Char) (next : Option Char) : (mode.step c).showsCode d next = false := by
      rcases stays with same | ⟨same, -⟩ <;> rw [same] <;> rfl
    obtain ⟨tail, whole, marked, resumes⟩ := ih (mode.step c) stays hidden'
    exact ⟨tail, congrArg (c :: ·) whole, ⟨hidden _ _, marked⟩, resumes⟩
  | case3 => exact ⟨[], rfl, trivial, .nil _⟩

/-- What a literal still takes is no code. A closed one ends in code. One that is not
closed ends with the text, or in front of a newline that is code. -/
theorem quoted_literalTail (quote : Char) (text : Text) (mark : isQuote quote = true) :
    ∃ rest, text = (Segment.literalTail quote text).1 ++ rest ∧
      Marked false (quoted quote) (Segment.literalTail quote text).1 rest ∧
      ((quoted quote).after (Segment.literalTail quote text).1).Resumes rest ∧
      ((Segment.literalTail quote text).2 = true →
        (quoted quote).after (Segment.literalTail quote text).1 = code ∧
          ∃ front, (Segment.literalTail quote text).1 = front ++ [quote]) := by
  have notNewline : quote ≠ '\n' := by
    rintro rfl
    simp [isQuote, backquote] at mark
  fun_induction Segment.literalTail quote text with
  | case1 => exact ⟨[], rfl, trivial, .nil _, by simp⟩
  | case2 => exact ⟨[], rfl, ⟨rfl, trivial⟩, .nil _, by simp⟩
  | case3 c rest tail closed inner ih =>
    obtain ⟨back, whole, marked, resumes, ended⟩ := ih
    rw [inner] at whole marked resumes ended
    refine ⟨back, by simp [← whole], ⟨rfl, rfl, marked⟩, resumes, fun isClosed => ?_⟩
    obtain ⟨back', front, rfl⟩ := ended isClosed
    exact ⟨back', '\\' :: c :: front, rfl⟩
  | case4 rest notLone notEscape =>
    have closing : (quoted quote).step quote = code := by
      have notBackslash : quote ≠ '\\' := by
        rintro rfl
        simp [isQuote, backquote] at mark
      simp [step, notBackslash]
    refine ⟨rest, rfl, ⟨?_, trivial⟩, ?_, fun _ => ⟨closing, [], rfl⟩⟩
    · simp [showsCode, notNewline]
    · rw [after_cons, closing]
      exact .code rest
  | case5 c rest notLone notEscape notQuote newline =>
    obtain ⟨rfl, spans⟩ := newline
    exact ⟨'\n' :: rest, rfl, trivial,
      .newline (by simp [step, spans]) (fun _ => by simp [showsCode, spans]), by simp⟩
  | case6 c rest notLone notEscape notQuote notEnd tail closed inner ih =>
    obtain ⟨back, whole, marked, resumes, ended⟩ := ih
    rw [inner] at whole marked resumes ended
    have notBackslash : c ≠ '\\' := by
      rintro rfl
      cases rest with
      | nil => exact notLone rfl rfl
      | cons d rest => exact notEscape d rest rfl rfl
    have stays : (quoted quote).step c = quoted quote := by
      simp only [step, notBackslash, ↓reduceIte, notQuote, false_or, notEnd]
    have hidden (next : Option Char) : (quoted quote).showsCode c next = false := by
      simp only [showsCode, Bool.and_eq_false_imp, beq_iff_eq, bne_eq_false_iff_eq]
      intro newline
      exact Classical.byContradiction fun spans => notEnd ⟨newline, spans⟩
    refine ⟨back, by simp [← whole], ⟨hidden _, ?_⟩, ?_, ?_⟩
    · rwa [stays]
    · rwa [after_cons, stays]
    · intro isClosed
      obtain ⟨back', front, rfl⟩ := ended isClosed
      rw [after_cons, stays]
      exact ⟨back', c :: front, rfl⟩

/-- How a mode gets over a segment when the rest follows it: the segment is code
throughout or not at all, and code resumes behind it. -/
structure Passes (mode : Mode) (segment : Segment) (rest : Text) : Prop where
  present : segment.body ≠ []
  marked : mode.Marked (segment.kind = .code) segment.body rest
  resumes : (mode.after segment.body).Resumes rest
  literal : segment.kind = .literal → mode.after segment.body = code ∧
    ∃ front quote, isQuote quote = true ∧ segment.body = front ++ [quote]
  comment : segment.kind = .comment → segment.body.head? = some '/'

/-- A comment or literal that opens in code is passed as such: nothing in it shows, and code resumes
behind it. -/
theorem passes_of_opening? {text : Text} {segment : Segment} {mode : Mode}
    (opened : Segment.opening? text = some segment) (resumes : mode.Resumes text) :
    ∃ rest, text = segment.body ++ rest ∧ mode.Passes segment rest := by
  fun_cases Segment.opening? text with
  | case1 rest =>
    obtain rfl := Option.some.inj opened
    obtain ⟨step', shown⟩ := resumes '/' (by simp)
    obtain ⟨marked, resumes'⟩ := line_takeWhile rest
    have slashed : mode.step '/' = slash := step'
    refine ⟨rest.dropWhile (· ≠ '\n'), ?_, by simp, ⟨shown _, ?_⟩, ?_, by simp, by simp⟩
    · simp [List.takeWhile_append_dropWhile]
    · rw [slashed]
      exact ⟨rfl, marked⟩
    · rw [after_cons, slashed]
      exact resumes'
  | case2 rest =>
    obtain rfl := Option.some.inj opened
    obtain ⟨step', shown⟩ := resumes '/' (by simp)
    obtain ⟨tail, whole, marked, resumes'⟩ := block_throughCommentEnd rest block (.inl rfl)
    have slashed : mode.step '/' = slash := step'
    refine ⟨tail, ?_, by simp, ⟨shown _, ?_⟩, ?_, by simp, by simp⟩
    · rw [List.cons_append, List.cons_append, ← whole]
    · rw [slashed]
      exact ⟨rfl, marked⟩
    · rw [after_cons, slashed]
      exact resumes'
  | case3 c rest notLine notBlock mark tail closed inner =>
    simp only [Segment.opening?, mark, ↓reduceIte, inner, Option.some.injEq] at opened
    obtain rfl := opened
    obtain ⟨step', shown⟩ := resumes c (by simp)
    obtain ⟨back, whole, marked, resumes', ended⟩ := quoted_literalTail c rest mark
    rw [inner] at whole marked resumes' ended
    have notSlash : c ≠ '/' := by
      rintro rfl
      simp [isQuote, backquote] at mark
    have quoting : mode.step c = quoted c := by
      rw [step']
      simp [step, notSlash, mark]
    have hidden (next : Option Char) : mode.showsCode c next = false := by
      rw [shown]
      simp [showsCode, mark]
    have noCode : (if closed then Kind.literal else Kind.unterminated) ≠ .code := by
      cases closed <;> simp
    refine ⟨back, by simp [← whole], by simp, ?_, ?_, ?_, ?_⟩
    · rw [decide_eq_false noCode, Marked, quoting]
      exact ⟨hidden _, marked⟩
    · rwa [after_cons, quoting]
    · intro literal
      obtain ⟨back', front, rfl⟩ := ended (by cases closed <;> simp_all)
      rw [after_cons, quoting]
      exact ⟨back', c :: front, c, mark, rfl⟩
    · intro comment
      cases closed <;> simp at comment
  | case4 c rest notLine notBlock mark => simp [Segment.opening?, mark] at opened
  | case5 => simp [Segment.opening?] at opened

/-- A character that opens neither comment nor literal is code, and code resumes behind it, even if
it is a slash. -/
theorem marked_of_opening?_none {c : Char} {rest : Text} {mode : Mode}
    (plain : Segment.opening? (c :: rest) = none) (resumes : mode.Resumes (c :: rest)) :
    mode.showsCode c rest.head? = true ∧ (mode.step c).Resumes rest := by
  obtain ⟨step', shown⟩ := resumes c (by simp)
  rw [step', shown]
  have notQuote : isQuote c = false := by
    cases mark : isQuote c with
    | false => rfl
    | true =>
      unfold Segment.opening? at plain
      split at plain <;> simp_all
  by_cases slashed : c = '/'
  · subst slashed
    have next : rest.head? ≠ some '/' ∧ rest.head? ≠ some '*' := by
      cases rest with
      | nil => simp
      | cons d rest =>
        constructor
        · intro same
          obtain rfl : d = '/' := by simpa using same
          simp [Segment.opening?] at plain
        · intro same
          obtain rfl : d = '*' := by simpa using same
          simp [Segment.opening?] at plain
    constructor
    · cases rest <;> simp_all [showsCode]
    · intro d head
      have notSlash : d ≠ '/' := by
        rintro rfl
        exact next.1 head
      have notStar : d ≠ '*' := by
        rintro rfl
        exact next.2 head
      have notSlash' : (d == '/') = false := by simpa using notSlash
      have notStar' : (d == '*') = false := by simpa using notStar
      have behind : code.step '/' = slash := rfl
      rw [behind]
      exact ⟨by simp [step, notSlash, notStar],
        fun following => by simp [showsCode, bne, notSlash', notStar']⟩
  · constructor
    · simp [showsCode, notQuote, slashed]
    · have stays : code.step c = code := by simp [step, slashed, notQuote]
      rw [stays]
      exact .code rest

end Mode

/-! ### The segments of a text -/

/-- A text and its segments: a comment or literal where one opens, and otherwise code as
far as the next one opens. -/
inductive Laid : Text → List Segment → Prop where
  | done : Laid [] []
  | opened {segment : Segment} {rest : Text} {others : List Segment}
      (opening : Segment.opening? (segment.body ++ rest) = some segment)
      (further : Laid rest others) : Laid (segment.body ++ rest) (segment :: others)
  | code {body rest : Text} {others : List Segment} (present : body ≠ [])
      (plain : ∀ front c back, body = front ++ c :: back →
        Segment.opening? (c :: (back ++ rest)) = none)
      (ends : rest = [] ∨ (Segment.opening? rest).isSome)
      (further : Laid rest others) : Laid (body ++ rest) (⟨.code, body⟩ :: others)

namespace Segment

/-- What is inside a comment or literal is skipped. -/
theorem cutFrom_inside (pending : Text) (inside : Nat) (text : Text)
    (enough : inside ≤ text.length) :
    cutFrom pending inside text = cutFrom pending 0 (text.drop inside) := by
  induction text generalizing inside with
  | nil =>
    obtain rfl : inside = 0 := by simpa using enough
    rfl
  | cons c rest ih =>
    cases inside with
    | zero => rfl
    | succ inside =>
      rw [cutFrom, List.drop_succ_cons]
      exact ih inside (by simpa using enough)

/-- The code gathered so far is laid out in front of what opens. -/
theorem laid_gathered {pending text : Text} {others : List Segment}
    (plain : ∀ front c back, pending.reverse = front ++ c :: back →
      opening? (c :: (back ++ text)) = none)
    (ends : text = [] ∨ (opening? text).isSome) (further : Laid text others) :
    Laid (pending.reverse ++ text) (gathered pending ++ others) := by
  cases pending with
  | nil => simpa [gathered] using further
  | cons c pending =>
    simp only [gathered, List.isEmpty_cons, Bool.false_eq_true, ↓reduceIte, List.singleton_append]
    exact .code (by simp) plain ends further

/-- The cut lays out the pending code and the text behind it.

The induction is on the length of the text, since a comment or literal is taken as a
whole. -/
theorem laid_cutFrom (pending text : Text)
    (plain : ∀ front c back, pending.reverse = front ++ c :: back →
      opening? (c :: (back ++ text)) = none)
    (length : Nat) (bound : text.length ≤ length) :
    Laid (pending.reverse ++ text) (cutFrom pending 0 text) := by
  induction length generalizing pending text with
  | zero =>
    obtain rfl : text = [] := by simpa using bound
    simpa [cutFrom] using laid_gathered plain (.inl rfl) .done
  | succ length ih =>
    cases text with
    | nil => simpa [cutFrom] using laid_gathered plain (.inl rfl) .done
    | cons c rest =>
      cases opens : opening? (c :: rest) with
      | none =>
        have plain' : ∀ front d back, (c :: pending).reverse = front ++ d :: back →
            opening? (d :: (back ++ rest)) = none := by
          intro front d back split
          rw [List.reverse_cons] at split
          rcases List.eq_nil_or_concat back with rfl | ⟨back', last, rfl⟩
          · obtain ⟨-, same⟩ := List.append_inj' split rfl
            obtain rfl : c = d := by simpa using same
            exact opens
          · have regrouped : pending.reverse ++ [c] = (front ++ d :: back') ++ [last] := by
              simpa using split
            obtain ⟨same, last'⟩ := List.append_inj' regrouped rfl
            obtain rfl : c = last := by simpa using last'
            simpa using plain front d back' same
        have shorter : rest.length ≤ length := by simpa using bound
        rw [cutFrom, opens]
        simpa using ih (c :: pending) rest plain' shorter
      | some segment =>
        obtain ⟨tail, whole, passes⟩ := Mode.passes_of_opening? opens (.code _)
        have dropped : rest.drop (segment.body.length - 1) = tail := by
          cases body : segment.body with
          | nil => exact absurd body passes.present
          | cons d body' =>
            rw [body, List.cons_append, List.cons.injEq] at whole
            simp [whole.2]
        have shorter : tail.length ≤ length := by
          rw [← dropped, List.length_drop]
          simp only [List.length_cons] at bound
          omega
        have enough : segment.body.length - 1 ≤ rest.length := by
          have total := congrArg List.length whole
          simp only [List.length_cons, List.length_append] at total
          omega
        have further : Laid tail (cutFrom [] 0 tail) := by
          simpa using ih [] tail (by simp) shorter
        rw [cutFrom, opens]
        simp only [cutFrom_inside [] _ rest enough, dropped]
        refine laid_gathered plain (.inr (by simp [opens])) ?_
        rw [whole] at opens ⊢
        exact .opened opens further

end Segment

/-- The segments of a text lay it out. -/
theorem Text.laid_segments (text : Text) : Laid text text.segments := by
  simpa [Text.segments] using Segment.laid_cutFrom [] text (by simp) text.length (Nat.le_refl _)

end ScriptCheck
