import ScriptCheck.Proofs.Alteration
import ScriptCheck.Proofs.Strays
import ScriptCheck.Proofs.Substitution

/-!
# Calls that are closed

The remedy for a console call left open adds closers behind the last code of its line and
may drop blanks in front of a final semicolon. It is judged here by the pairs of the whole
text it leads to. One of the closers goes with the parenthesis of the call, all of them are
code, and no other byte changes its kind.

The closers close all that the line leaves open, also what a later line closes. A closer of
a later line is then left with what stood open in front of the call, if there is enough of
that.
-/

namespace ScriptCheck

/-- Nothing but blanks and comments follows a front of a text. -/
def Text.Spent (front rest : Text) : Prop :=
  ∀ (before : Text) (c : Char) (after : Text), rest = before ++ c :: after →
    isBlank c = true ∨ (front ++ rest).layout.kindAt? (front ++ before).width = some .comment

/-- The brackets opened in a stretch of a text and closed behind it. -/
def Text.closedBehind (text : Text) (kind : Bracket) (start stop : Nat) : List Nat :=
  (List.range text.width).filter fun opened =>
    start ≤ opened && opened < stop && text.codeByte? opened == some kind.opener &&
      (text.layout.matchingClose? opened).any fun closed => stop ≤ closed

/-- The brackets in front of an offset that the text never closes. -/
def Text.neverClosed (text : Text) (kind : Bracket) (start : Nat) : List Nat :=
  (List.range text.width).filter fun opened => opened < start && text.leavesOpen kind opened

namespace Delimiter

open Alteration

/-- The parenthesis of the call that a finding is about. -/
def callParen (finding : Finding) : Nat :=
  finding.offset + Text.width (finding.matched.takeWhile (· ≠ '('))

/-- How the remedy of a finding closes a call. Closers stand behind the head, in place of
blanks; blanks go only in front of a semicolon that ends the code of the line. -/
structure Closes (finding : Finding) (text left head blanks tail right : Text) (missing : Nat) :
    Prop where
  whole : text = left ++ finding.matched ++ right
  place : left.width = finding.offset
  matched_eq : finding.matched = head ++ blanks ++ tail
  replaced : finding.replacement? = some (head ++ List.replicate missing ')' ++ tail)
  blank : ∀ c ∈ blanks, isBlank c = true
  ended : blanks = [] ∨
    ∃ trailing, tail = ';' :: trailing ∧ Text.Spent (head ++ blanks ++ [';']) trailing

/-- The parts of a text in which a call is closed. -/
def closedParts (left head blanks tail right : Text) (missing : Nat) : Alteration :=
  [.kept (left ++ head), .dropped blanks, .added (List.replicate missing ')'),
    .kept (tail ++ right)]

/-! ### The end of the line -/

/-- Behind the end of the last code that is found, everything is blank or part of a comment.
The induction is on the segments that remain, with `front` the text in front of them. -/
theorem blank_or_comment_of_lastCodeEnd? {front rest : Text} {segments : List Segment}
    (laid : Laid rest segments) (resumes : (Mode.code.after front).Resumes rest) {last stop : Nat}
    (reached : last ≤ front.width)
    (found : lastCodeEnd? (front ++ rest) last (Segment.placeFrom front.width segments) =
      some stop) :
    last ≤ stop ∧ ∀ (before : Text) (c : Char) (after : Text), rest = before ++ c :: after →
      stop ≤ (front ++ before).width →
        isBlank c = true ∨ (Mode.code.after (front ++ before)).kindOf c after = .comment := by
  induction segments generalizing front rest last with
  | nil =>
    obtain rfl : last = stop := Option.some.inj found
    cases laid
    exact ⟨Nat.le_refl _, by simp⟩
  | cons segment segments ih =>
    obtain ⟨rest, rfl, further, passes⟩ := laid.first resumes
    have slice : (front ++ (segment.body ++ rest)).slice? front.width
        (front.width + segment.body.width) = some segment.body :=
      (Text.slice?_eq_some_iff _ _ _ _).mpr ⟨front, rest, by simp, rfl, rfl⟩
    obtain ⟨blanks, trimmed, blank⟩ := Text.exists_blanks_of_trimEnd segment.body
    have trimmed_width : segment.body.width = segment.body.trimEnd.width + blanks.width := by
      rw [← Text.width_append, ← trimmed]
    simp only [Segment.placeFrom, lastCodeEnd?, slice, Option.bind_eq_bind,
      Option.bind_some] at found
    rw [← List.append_assoc, ← Text.width_append] at found
    obtain ⟨bound, idle⟩ := ih further
      (by rw [Mode.after_append]; exact passes.resumes)
      (by rw [Text.width_append]; split <;> omega) found
    refine ⟨by split at bound <;> omega, ?_⟩
    intro before c after split behind
    have later (before' : Text) (whole : before = segment.body ++ before')
        (rest_eq : rest = before' ++ c :: after) :
        isBlank c = true ∨ (Mode.code.after (front ++ before)).kindOf c after = .comment := by
      rw [whole, ← List.append_assoc] at behind ⊢
      exact idle before' c after rest_eq behind
    rcases List.append_eq_append_iff.mp split with
      ⟨before', whole, rest_eq⟩ | ⟨body', here, rest_eq⟩
    · exact later before' whole rest_eq
    · cases body' with
      | nil => exact later [] (by simpa using here.symm) (by simpa using rest_eq.symm)
      | cons d body' =>
        obtain ⟨rfl, rfl⟩ : c = d ∧ after = body' ++ rest := by simpa using rest_eq
        rw [Mode.after_append, laid.kindOf_eq (Mode.proper_code_after front) resumes here]
        by_cases comment : segment.kind = .comment
        · exact .inr comment
        · -- The character stands behind the trimmed segment, so it is one of its blanks.
          have within : segment.body.trimEnd.width ≤ before.width := by
            rw [Text.width_append] at behind
            by_cases empty : segment.body.trimEnd.isEmpty = true
            · rw [List.isEmpty_iff.mp empty]
              exact Nat.zero_le _
            · simp only [comment, empty, decide_false, Bool.or_self, Bool.false_eq_true,
                ↓reduceIte] at bound
              omega
          obtain ⟨gap, -, blanks_eq⟩ :=
            Text.exists_gap_of_width_le (trimmed.symm.trans here) within
          exact .inl (blank c (by simp [blanks_eq]))

/-- The semicolon in front of which the closers go is followed by blanks and comments only, because
the last code of the call stops there. -/
theorem Closing.spent {call new front blanks final trailing : Text} {missing : Nat}
    (closing : Closing call new front blanks final trailing missing) :
    Text.Spent (front ++ blanks ++ final) trailing := by
  intro before c after trailing_eq
  have found : lastCodeEnd? ([] ++ call) 0 (Segment.placeFrom (Text.width []) call.segments) =
      some (Text.width (front ++ blanks ++ final)) := closing.found
  have split : call = (front ++ blanks ++ final ++ before) ++ c :: after := by
    rw [closing.call_eq, trailing_eq, List.append_assoc _ before]
  obtain ⟨-, idle⟩ := @blank_or_comment_of_lastCodeEnd? [] call _ call.laid_segments (.code call)
    _ _ (Nat.zero_le _) found
  rcases idle _ c after split (by simp) with blank | comment
  · exact .inl blank
  · right
    have kind := Text.kindAt?_layout_byte (front ++ blanks ++ final ++ before) after c
      c.utf8Size_pos
    rw [List.nil_append] at comment
    rw [Nat.add_zero, comment] at kind
    rwa [trailing_eq, ← List.append_assoc]

/-- Behind the blanks that go, no parenthesis is left on the line: blanks and a semicolon are none,
and those of comments do not show. -/
theorem Closing.silent_tail {call new front blanks final trailing : Text} {missing : Nat}
    (closing : Closing call new front blanks final trailing missing)
    (settled : Mode.code.after blanks = .code) :
    Mode.code.visible isParen 0 (final ++ trailing) = [] := by
  have absent : ∀ c ∈ blanks ++ final, isParen c = false := by
    intro c listed
    rcases List.mem_append.mp listed with blank | last
    · exact isParen_of_isBlank (closing.blank c blank)
    · rcases closing.ending with rfl | rfl
      · cases last
      · obtain rfl := List.mem_singleton.mp last
        rfl
  have shown : Mode.code.visible isParen 0 (blanks ++ (final ++ trailing)) = [] := by
    rw [← List.append_assoc, ← Mode.visible_of_resumes closing.inside closing.resumes,
      Mode.visible_append, Mode.visible_eq_nil 0 absent, List.nil_append, ← Mode.after_append,
      ← List.append_assoc]
    exact Mode.visible_eq_nil_of_visible closing.silent _
  rw [Mode.visible_append, settled] at shown
  exact Mode.visible_eq_nil_of_visible (List.append_eq_nil_iff.mp shown).2 0

/-- In the whole text, too, the head of the call ends in code that goes on behind it. -/
theorem Closing.joined {call new front blanks final trailing left right : Text} {missing : Nat}
    (closing : Closing call new front blanks final trailing missing) (openCall : OpenCall call)
    (inside : (Mode.code.after left).inCode = true) (ends : ∀ c ∈ right.head?, c = '\n') :
    (Mode.code.after (left ++ front)).inCode = true ∧
      Joined (left ++ front) (blanks ++ (final ++ trailing ++ right)) := by
  have regrouped : front ++ (blanks ++ (final ++ trailing ++ right)) = call ++ right := by
    simp [closing.call_eq]
  have resumesLeft : (Mode.code.after left).Resumes
      (front ++ (blanks ++ (final ++ trailing ++ right))) := by
    rw [regrouped]
    apply Mode.resumes_of_inCode inside
    intro c first
    obtain ⟨d, call', rfl⟩ : ∃ d call', call = d :: call' := by
      obtain ⟨head, rest, rfl, present, -⟩ := openCall.form
      exact List.exists_cons_of_ne_nil (by simp)
    exact openCall.head c first
  have resumes : (Mode.code.after front).Resumes (blanks ++ (final ++ trailing ++ right)) := by
    have regrouped : blanks ++ (final ++ trailing ++ right) =
        blanks ++ final ++ trailing ++ right := by simp
    rw [regrouped]
    by_cases empty : blanks ++ final ++ trailing = []
    · rw [empty, List.nil_append]
      apply Mode.resumes_of_inCode closing.inside
      intro c first
      rw [ends c first]
      decide
    · obtain ⟨c, others, whole⟩ := List.exists_cons_of_ne_nil empty
      have resumes := closing.resumes
      rw [whole] at resumes ⊢
      exact resumes
  constructor
  · rw [Mode.after_append]
    by_cases empty : front = []
    · rw [empty, Mode.after_nil]
      exact inside
    · rw [Mode.after_of_resumes resumesLeft empty]
      exact closing.inside
  · exact .append (.inr ⟨inside, resumesLeft⟩) (.inr ⟨closing.inside, resumes⟩)

/-! ### The call in its text -/

/-- A call that is closed in a text: the name and what follows its parenthesis, and the
places at which the parts of the text meet. -/
structure CallSite (finding : Finding) (text left name inner head blanks tail right : Text)
    (missing : Nat) : Prop extends Closes finding text left head blanks tail right missing where
  length : finding.matched.width = finding.length
  call_eq : finding.matched = name ++ '(' :: inner
  isName : ∀ c ∈ name, isCallHead c = true
  present : name ≠ []
  inside : (Mode.code.after left).inCode = true
  unclosed : text.layout.matchingClose? (left.width + name.width) = none
  counted : missing = parenDepth .code 0 finding.matched
  positive : 0 < missing
  open' : (Mode.code.after (left ++ head)).inCode = true
  joined : Joined (left ++ head) (blanks ++ (tail ++ right))
  settled : Mode.code.after blanks = .code
  silent : Mode.code.visible isParen 0 tail = []

/-- Each finding of the rule has such a call. The pattern gives its name and its parenthesis, and
the check the parts of the closed call. -/
theorem exists_callSite {checker : Checker} {text : Text} {finding : Finding}
    (member : finding ∈ checker.ruleFindings text unclosedConsoleCall) :
    ∃ left name inner head blanks tail right missing,
      CallSite finding text left name inner head blanks tail right missing := by
  obtain ⟨findings, searched, listed⟩ := Checker.mem_ruleFindings.mp member
  obtain ⟨found, left, right, captures, rfl, occurs, confirmed⟩ :=
    Rule.exists_match_of_mem_findings? searched listed
  have confirmed' : isCallOpen ⟨text, text.layout, checker.globals.knows, found⟩ = true :=
    Check.yields_pure.mp (confirmed _ rfl)
  obtain ⟨openCall, inside, -, ends⟩ := openCall_of_isCallOpen occurs confirmed'
  obtain ⟨name, inner, call_eq, first, isName, -, -⟩ := form_of_fits_consoleCall occurs.fits
  have unclosed : text.layout.matchingClose? (left.width + name.width) = none := by
    simp only [isCallOpen, Bool.and_eq_true, Option.isNone_iff_eq_none] at confirmed'
    obtain ⟨-, ⟨-, unclosed⟩, -⟩ := confirmed'
    rwa [call_eq, takeWhile_of_isCallHead isName, occurs.start_eq] at unclosed
  obtain ⟨new, head, blanks, final, trailing, replaced, closing⟩ :=
    closing_closeCall openCall found.texts
  have plain : ∀ c ∈ blanks, Mode.isPlain c = true := fun c blank =>
    isPlain_of_isBlank (closing.blank c blank)
      (openCall.oneLine c (by simp [closing.call_eq, blank]))
  have settled : Mode.code.after blanks = .code := Mode.code_after_of_isPlain plain
  obtain ⟨open', joined⟩ := closing.joined openCall inside ends
  refine ⟨left, name, inner, head, blanks, final ++ trailing, right,
    parenDepth .code 0 found.body, ?_⟩
  exact {
    whole := occurs.whole
    place := occurs.start_eq.symm
    length := occurs.width_eq.symm
    matched_eq := by
      show found.body = _
      rw [closing.call_eq]
      simp
    replaced := by
      show closeCall found.body found.texts = _
      rw [replaced, closing.new_eq]
      simp
    blank := closing.blank
    ended := by
      rcases closing.dropped with none | semicolon
      · exact .inl none
      · have spent := closing.spent
        subst semicolon
        exact .inr ⟨trailing, rfl, spent⟩
    call_eq, isName, inside, unclosed, open', joined, settled
    silent := closing.silent_tail settled
    present := by
      rintro rfl
      cases first
    counted := rfl
    positive := closing.positive }

/-- The parentheses of a text and of what a call is closed in: those in front of the call, its
own, those behind that on the line, and those of later lines. -/
structure CallParens (finding : Finding) (text mended : Text) (parts : Alteration)
    (start missing : Nat) (front inner behind : List (Nat × Char)) : Prop where
  shown : Mode.code.visible isParen 0 text = front ++ (callParen finding, '(') :: inner ++ behind
  mended : Mode.code.visible isParen 0 mended =
    front ++ (callParen finding, '(') :: inner ++
      (List.range' start missing).map (fun place => (place, ')')) ++
      behind.map fun (place, c) => (parts.moved place, c)
  inFront : ∀ placed ∈ front, placed.1 < finding.offset
  called : finding.offset ≤ callParen finding ∧ callParen finding < finding.stop
  onLine : ∀ placed ∈ inner, finding.offset ≤ placed.1 ∧ placed.1 < finding.stop
  later : ∀ placed ∈ behind, finding.stop ≤ placed.1
  unmoved : ∀ placed ∈ front ++ (callParen finding, '(') :: inner,
    parts.moved placed.1 = placed.1
  unclosed : text.layout.matchingClose? (callParen finding) = none
  counted : missing = (Bracket.paren.unclosedFrom [callParen finding] inner).length

namespace CallSite

variable {finding : Finding} {text left name inner head blanks tail right : Text} {missing : Nat}

/-- A closer is a plain character. -/
theorem isPlain_of_mem_closers {count : Nat} {c : Char} (listed : c ∈ List.replicate count ')') :
    Mode.isPlain c = true := by
  obtain rfl := List.eq_of_mem_replicate listed
  rfl

/-- Closers read in code leave the scan in code. -/
theorem after_closers (count : Nat) : Mode.code.after (List.replicate count ')') = .code :=
  Mode.code_after_of_isPlain fun _ => isPlain_of_mem_closers

/-- Each closer is one byte wide. -/
theorem width_closers (count : Nat) : Text.width (List.replicate count ')') = count := by
  have one : Char.utf8Size ')' = 1 := rfl
  induction count with
  | zero => rfl
  | succ count ih =>
    rw [List.replicate_succ, Text.width_cons, ih, one, Nat.add_comm]

/-- Closers in code are visible one after the other. -/
theorem visible_closers {mode : Mode} (inside : mode.inCode = true) (start count : Nat) :
    mode.visible isParen start (List.replicate count ')') =
      (List.range' start count).map fun place => (place, ')') := by
  induction count generalizing mode start with
  | zero => rfl
  | succ count ih =>
    have next : (mode.step ')').inCode = true := by
      have settled : mode.after [')'] = .code :=
        Mode.after_of_inCode inside (by simp) (List.forall_mem_singleton.mpr rfl)
      rw [Mode.after_cons, Mode.after_nil] at settled
      rw [settled]
      rfl
    rw [List.replicate_succ, Mode.visible, ih next, inside, List.range'_succ]
    rfl

variable (site : CallSite finding text left name inner head blanks tail right missing)

include site

/-- The parenthesis of the call comes right behind its name. -/
theorem callParen_eq : callParen finding = left.width + name.width := by
  rw [callParen, site.call_eq, takeWhile_of_isCallHead site.isName, site.place]

/-- The finding stops with the line, behind the call. -/
theorem stop_eq : finding.stop = callParen finding + 1 + Text.width inner := by
  have paren : Char.utf8Size '(' = 1 := rfl
  rw [site.callParen_eq, Finding.stop, ← site.place, ← site.length, site.call_eq,
    Text.width_append, Text.width_cons, paren]
  omega

/-- With what is dropped, the parts make up the text as it was. -/
theorem before_eq : (closedParts left head blanks tail right missing).before = text := by
  simp [closedParts, Part.old, site.whole, site.matched_eq]

/-- With what is put in, the parts make up the mended text. -/
theorem after_eq :
    (closedParts left head blanks tail right missing).after =
      (Repair.run text [finding]).text := by
  rw [Repair.text_run_singleton site.whole site.place site.length site.replaced]
  simp [closedParts, Part.new]

/-- The closers and what they stand between meet at seams. -/
theorem seamless : Seamless (closedParts left head blanks tail right missing) := by
  refine ⟨?_, .inr (.of_head site.open' ?_), .of_after site.settled _, .of_after rfl _,
    .of_after rfl _, .of_after (after_closers _) _, .inl rfl, .inl rfl, trivial⟩
  · simpa [Part.old] using site.joined
  · intro c first
    obtain ⟨others, missing_eq⟩ := Nat.exists_eq_add_one_of_ne_zero (Nat.ne_of_gt site.positive)
    obtain rfl : ')' = c := by
      simpa [Part.new, missing_eq, List.replicate_succ] using first
    decide

/-- The head of a call shows the parentheses that the whole call shows. Behind the head there are
only blanks, a semicolon and comments. -/
theorem visible_head :
    Mode.code.visible isParen 0 (left ++ head) =
      Mode.code.visible isParen 0 left ++ (left.width + name.width, '(') ::
        Mode.code.visible isParen (left.width + name.width + 1) inner := by
  have rest (offset : Nat) : Mode.code.visible isParen offset (blanks ++ tail) = [] := by
    rw [Mode.visible_append, site.settled,
      Mode.visible_eq_nil _ fun c listed => isParen_of_isBlank (site.blank c listed)]
    exact Mode.visible_eq_nil_of_visible site.silent _
  have joined : Joined (left ++ head) (blanks ++ tail) := by
    have joined := site.joined
    rw [← List.append_assoc] at joined
    exact joined.of_append
  have shown := visible_call site.inside site.present
    (fun c listed => isPlain_of_isCallHead (site.isName c listed)) inner
  rw [← site.call_eq, site.matched_eq, List.append_assoc head, ← List.append_assoc left,
    joined.visible, rest, List.append_nil] at shown
  exact shown

/-- As many closers are missing as the line leaves open. -/
theorem missing_eq (opened offset : Nat) :
    missing = (Bracket.paren.unclosedFrom [opened]
      (Mode.code.visible isParen offset inner)).length := by
  have alone := @visible_call [] name rfl site.present
    (fun c listed => isPlain_of_isCallHead (site.isName c listed)) inner
  rw [site.counted, site.call_eq, parenDepth, ← List.nil_append (name ++ _), alone]
  calc openParens 1 (Mode.code.visible isParen _ inner)
      = openParens 1 (Mode.code.visible isParen offset inner) :=
        openParens_congr 1 (Mode.map_snd_visible _ offset inner)
    _ = _ := openParens_eq_length [opened] _

/-- A call that is found has its parentheses laid out as the counting of the next section takes
them, with the closers right behind the head. -/
theorem callParens :
    CallParens finding text (Repair.run text [finding]).text
      (closedParts left head blanks tail right missing) (left ++ head).width missing
      (Mode.code.visible isParen 0 left)
      (Mode.code.visible isParen (left.width + name.width + 1) inner)
      (Mode.code.visible isParen (left ++ head ++ blanks).width (tail ++ right)) := by
  have stop_eq := site.stop_eq
  have place := site.place
  obtain ⟨shown, mended⟩ := @visible_around isParen [.kept (left ++ head)]
    [.dropped blanks, .added (List.replicate missing ')')] [.kept (tail ++ right)] site.seamless
    (by simp) (by simp)
    (by simpa [Part.old] using
      Mode.visible_eq_nil 0 fun c listed => isParen_of_isBlank (site.blank c listed))
  have parts_eq : [.kept (left ++ head)] ++
      [.dropped blanks, .added (List.replicate missing ')')] ++ [.kept (tail ++ right)] =
        closedParts left head blanks tail right missing := rfl
  have unmoved : ∀ placed ∈ Mode.code.visible isParen 0 (left ++ head),
      (closedParts left head blanks tail right missing).moved placed.1 = placed.1 := by
    intro placed member
    have inside : placed.1 < Text.width (left ++ head) := by
      simpa using (Mode.of_mem_visible member).2
    exact moved_cons_of_lt inside
  rw [parts_eq] at shown mended
  simp only [before_cons, before_nil, after_cons, after_nil, Part.old, Part.new, List.append_nil,
    List.nil_append, List.cons_append] at shown mended
  rw [site.before_eq, site.visible_head] at shown
  rw [site.after_eq, visible_closers rfl, site.visible_head] at mended
  rw [site.visible_head] at unmoved
  have called : finding.offset ≤ callParen finding := by
    rw [site.callParen_eq, site.place]
    exact Nat.le_add_right _ _
  rw [← site.callParen_eq] at shown mended unmoved ⊢
  refine ⟨shown, ?_, ?_, ?_, ?_, ?_, unmoved, ?_, ?_⟩
  · rw [mended]
    congr 2
    refine Eq.trans (List.map_congr_left ?_) (List.map_id _)
    intro placed member
    exact Prod.ext (unmoved placed member) rfl
  · intro placed member
    have bounds := Mode.of_mem_visible member
    omega
  · omega
  · intro placed member
    have bounds := Mode.of_mem_visible member
    omega
  · intro placed member
    rw [Mode.visible_append, Mode.visible_eq_nil_of_visible site.silent, List.nil_append] at member
    have bounds := Mode.of_mem_visible member
    rw [Finding.stop, ← site.place, ← site.length, site.matched_eq]
    simp only [Text.width_append] at bounds ⊢
    omega
  · rw [site.callParen_eq]
    exact site.unclosed
  · exact site.missing_eq _ _

/-- No parenthesis is dropped. -/
theorem keeps_closer {opened closed : Nat}
    (pair : (opened, closed) ∈ Bracket.paren.pairs text.codeChars) :
    (closedParts left head blanks tail right missing).keeps closed = true := by
  rw [Bracket.pairs_codeChars, isSide_paren] at pair
  have listed := Bracket.closer_of_mem_pairsFrom pair
  rw [← site.before_eq] at listed
  apply keeps_of_mem_visible site.seamless _ listed
  intro part member added c old
  simp only [closedParts, List.mem_cons, List.not_mem_nil, or_false] at member
  rcases member with rfl | rfl | rfl | rfl
  · cases added
  · exact isParen_of_isBlank (site.blank c old)
  · cases old
  · cases added

/-- The parenthesis of the call stands in the head, because it shows among the parentheses of the
head. -/
theorem head_eq : ∃ rest, head = name ++ '(' :: rest := by
  have listed : (left.width + name.width, '(') ∈ Mode.code.visible isParen 0 (left ++ head) := by
    rw [site.visible_head]
    simp
  have inside := (Mode.of_mem_visible listed).2
  rw [Nat.zero_add, Text.width_append] at inside
  have same : name ++ '(' :: inner = head ++ (blanks ++ tail) := by
    rw [← site.call_eq, site.matched_eq, List.append_assoc]
  obtain ⟨gap, rfl, split⟩ := Text.exists_gap_of_width_le same (by omega)
  cases gap with
  | nil => simp at inside
  | cons c gap =>
    obtain ⟨rfl, -⟩ := List.cons.inj split
    exact ⟨gap, rfl⟩

/-- Every closer is code. It is read behind the head, which ends in code, and behind the closers
before it, which stay in code. -/
theorem kindAt?_closer {closer : Nat} (among : closer < missing) :
    (Repair.run text [finding]).text.layout.kindAt? ((left ++ head).width + closer) =
      some .code := by
  obtain ⟨others, rfl⟩ := Nat.exists_eq_add_of_lt among
  have closers : List.replicate (closer + others + 1) ')' =
      List.replicate closer ')' ++ ')' :: List.replicate others ')' := by
    rw [Nat.add_assoc, ← List.replicate_append_replicate, List.replicate_succ]
  have mended : (Repair.run text [finding]).text = (left ++ head ++ List.replicate closer ')') ++
      ')' :: (List.replicate others ')' ++ tail ++ right) := by
    rw [← site.after_eq]
    simp [closedParts, Part.new, closers]
  have kind := Text.kindAt?_layout_byte (left ++ head ++ List.replicate closer ')')
    (List.replicate others ')' ++ tail ++ right) ')' Nat.one_pos
  have inside : (Mode.code.after (left ++ head ++ List.replicate closer ')')).inCode = true := by
    rw [Mode.after_append,
      Mode.inCode_after (Mode.proper_code_after _) fun _ => isPlain_of_mem_closers]
    exact site.open'
  rw [Text.width_append, width_closers, Nat.add_zero, ← mended] at kind
  rw [kind, Mode.kindOf_of_showsCode]
  rw [Mode.showsCode_of_isPlain rfl, inside]

/-- A call that starts at the same place in the mended text has the same parenthesis. -/
theorem callParen_mended {later : Finding} {left' name' inner' head' blanks' tail' right' : Text}
    {missing' : Nat}
    (site' : CallSite later (Repair.run text [finding]).text left' name' inner' head' blanks' tail'
      right' missing')
    (same : later.offset = finding.offset) : callParen later = callParen finding := by
  obtain ⟨rest, head_eq⟩ := site.head_eq
  have mended : left' ++ (name' ++ '(' :: (inner' ++ right')) =
      left ++ (name ++ '(' :: (rest ++ List.replicate missing ')' ++ tail ++ right)) := by
    calc left' ++ (name' ++ '(' :: (inner' ++ right'))
        = (Repair.run text [finding]).text := by rw [site'.whole, site'.call_eq]; simp
      _ = _ := by rw [← site.after_eq]; simp [closedParts, Part.new, head_eq]
  have wide : left'.width = left.width := by rw [site'.place, same, site.place]
  obtain ⟨rfl, rests⟩ := Text.append_inj_of_width mended wide
  have names := congrArg (List.takeWhile (· ≠ '(')) rests
  rw [takeWhile_of_isCallHead site'.isName, takeWhile_of_isCallHead site.isName] at names
  rw [site'.callParen_eq, site.callParen_eq, names]

end CallSite

/-! ### The pairs of the mended text -/

namespace CallParens

variable {finding : Finding} {text mended : Text} {parts : Alteration} {start missing : Nat}
  {front inner behind : List (Nat × Char)}
variable (parens : CallParens finding text mended parts start missing front inner behind)

include parens


/-- The pairs of the text are those of its parentheses in code. -/
theorem pairs_eq :
    Bracket.paren.pairs text.codeChars =
      Bracket.paren.pairs (front ++ (callParen finding, '(') :: inner ++ behind) := by
  rw [Bracket.pairs_codeChars, isSide_paren, parens.shown, Bracket.pairs]

/-- The parentheses come in the order of their offsets. -/
theorem ordered :
    (front ++ (callParen finding, '(') :: inner ++ behind).Pairwise
      fun placed later => placed.1 < later.1 := by
  rw [← parens.shown]
  exact Mode.pairwise_visible _ _ _ _

/-- What is open at the end of the line: what the line has opened behind the parenthesis of
the call, that parenthesis, and what was open in front of the call. The closers are as many
as the line has left open, and later lines do not close the call. -/
theorem stacked :
    let above := Bracket.paren.unclosedFrom [] inner
    Bracket.paren.unclosedFrom [] (front ++ (callParen finding, '(') :: inner) =
        above ++ callParen finding :: Bracket.paren.unclosedFrom [] front ∧
      Bracket.paren.strays 0 behind ≤ above.length ∧ missing = above.length + 1 := by
  intro above
  have unpaired : ∀ closed, (callParen finding, closed) ∉
      Bracket.paren.pairs (front ++ (callParen finding, '(') :: inner ++ behind) := by
    intro closed paired
    rw [← parens.pairs_eq] at paired
    have matched := Text.matchingClose?_eq_some_iff_mem_pairs.mpr ⟨_, paired⟩
    rw [parens.unclosed] at matched
    cases matched
  obtain ⟨good, stacked, reach⟩ := @Bracket.unclosedFrom_of_unpaired .paren inner front behind
    (callParen finding) parens.ordered unpaired
  refine ⟨stacked, reach, ?_⟩
  rw [parens.counted, Bracket.unclosedFrom_eq_append_drop, good, List.drop_zero,
    List.length_append, List.length_singleton]

/-- The pairs of the mended text: those up to the end of the line, those that the closers make,
and those that are left to later lines. -/
theorem pairs_mended :
    Bracket.paren.pairs mended.codeChars =
      Bracket.paren.pairs (front ++ (callParen finding, '(') :: inner) ++
        (Bracket.paren.unclosedFrom [] (front ++ (callParen finding, '(') :: inner)).zip
          (List.range' start missing) ++
        Bracket.paren.pairsFrom (Bracket.paren.unclosedFrom [] front)
          (behind.map fun (place, c) => (parts.moved place, c)) := by
  obtain ⟨stacked, -, counted⟩ := parens.stacked
  obtain ⟨closed, left⟩ := Bracket.paren.pairsFrom_closers
    (Bracket.paren.unclosedFrom [] (front ++ (callParen finding, '(') :: inner)) start missing
  have rest : (Bracket.paren.unclosedFrom [] (front ++ (callParen finding, '(') :: inner)).drop
      missing = Bracket.paren.unclosedFrom [] front := by
    rw [stacked, counted, ← List.drop_drop, List.drop_left, List.drop_one, List.tail_cons]
  simp only [Bracket.closer] at closed left
  rw [Bracket.pairs_codeChars, isSide_paren, parens.mended, Bracket.pairsFrom_append,
    Bracket.pairsFrom_append, closed, Bracket.unclosedFrom_append _ _ (front ++ _), left, rest,
    Bracket.pairs]

/-- One of the closers closes the call. Those before it close what the line opens inside the call
and leaves open. -/
theorem matchingClose?_mended :
    ∃ closer < missing,
      mended.layout.matchingClose? (callParen finding) = some (start + closer) := by
  obtain ⟨stacked, -, counted⟩ := parens.stacked
  refine ⟨(Bracket.paren.unclosedFrom [] inner).length, by omega, ?_⟩
  apply Text.matchingClose?_eq_some_iff_mem_pairs.mpr
  refine ⟨.paren, ?_⟩
  rw [parens.pairs_mended, stacked]
  apply List.mem_append_left
  apply List.mem_append_right
  apply List.mem_iff_getElem?.mpr
  refine ⟨(Bracket.paren.unclosedFrom [] inner).length, ?_⟩
  rw [List.getElem?_zip_eq_some]
  constructor
  · simp
  · rw [List.getElem?_range' (by omega)]
    simp

end CallParens

/-- Closing a call closes it: one of the added closers goes with its parenthesis, each of them
is code, every byte that stays keeps its kind, and the call is not reported again. -/
theorem closers_close_call (checker : Checker) (text : Text) (finding : Finding)
    (member : finding ∈ checker.ruleFindings text unclosedConsoleCall) :
    ∃ left head blanks tail right missing,
      Closes finding text left head blanks tail right missing ∧
      let parts := closedParts left head blanks tail right missing
      let mended := (Repair.run text [finding]).text
      let start := (left ++ head).width
      parts.before = text ∧ parts.after = mended ∧
      (∃ closer < missing,
        mended.layout.matchingClose? (callParen finding) = some (start + closer)) ∧
      (∀ closer < missing, mended.layout.kindAt? (start + closer) = some .code) ∧
      (∀ offset, parts.keeps offset = true →
        mended.byteAt? (parts.moved offset) = text.byteAt? offset ∧
        mended.layout.kindAt? (parts.moved offset) = text.layout.kindAt? offset) ∧
      ∀ later ∈ checker.ruleFindings mended unclosedConsoleCall,
        later.offset ≠ finding.offset ∧ callParen later ≠ callParen finding := by
  obtain ⟨left, name, inner, head, blanks, tail, right, missing, site⟩ := exists_callSite member
  refine ⟨left, head, blanks, tail, right, missing, site.toCloses, ?_⟩
  intro parts mended start
  obtain ⟨closer, among, matched⟩ := site.callParens.matchingClose?_mended
  refine ⟨site.before_eq, site.after_eq, ⟨closer, among, matched⟩, ?_, ?_, ?_⟩
  · intro closer among
    exact site.kindAt?_closer among
  · intro offset kept
    have byte := byteAt?_moved kept
    have kind := kindAt?_moved site.seamless kept
    rw [site.after_eq, site.before_eq] at byte kind
    exact ⟨byte, kind⟩
  · intro later member'
    obtain ⟨left', name', inner', head', blanks', tail', right', missing', site'⟩ :=
      exists_callSite member'
    have apart : callParen later ≠ callParen finding := by
      intro same
      have unclosed := site'.callParens.unclosed
      rw [same, matched] at unclosed
      cases unclosed
    refine ⟨?_, apart⟩
    intro same
    exact apart (site.callParen_mended site' same)

/-- Two closers go in front of a semicolon and a comment, though a later line closes one of
the two parentheses. -/
theorem closers_close_call_ahead_of_comment :
    let checker : Checker := ⟨⟨[unclosedConsoleCall]⟩, fun _ => .failed, .none⟩
    let text := "console.log(f(\"é)\" ; // (\n)\n".toList
    ∃ finding ∈ checker.ruleFindings text unclosedConsoleCall,
      (Repair.run text [finding]).text = "console.log(f(\"é)\")); // (\n)\n".toList ∧
      ∃ left head blanks tail right missing,
        Closes finding text left head blanks tail right missing ∧
        ∃ closer < missing, (Repair.run text [finding]).text.layout.matchingClose? 11 =
          some ((left ++ head).width + closer) := by
  intro checker text
  have found : ((checker.ruleFindings text unclosedConsoleCall).any fun finding =>
      callParen finding == 11 && (Repair.run text [finding]).text ==
        "console.log(f(\"é)\")); // (\n)\n".toList) = true := by
    decide +kernel
  obtain ⟨finding, member, holds⟩ := List.any_eq_true.mp found
  simp only [Bool.and_eq_true, beq_iff_eq] at holds
  obtain ⟨left, head, blanks, tail, right, missing, closes, -, -, matched, -⟩ :=
    closers_close_call checker text finding member
  rw [holds.1] at matched
  exact ⟨finding, member, holds.2, left, head, blanks, tail, right, missing, closes, matched⟩

/-! ### The closers of later lines -/

namespace CallParens

variable {finding : Finding} {text mended : Text} {parts : Alteration} {start missing : Nat}
  {front inner behind : List (Nat × Char)}
variable (parens : CallParens finding text mended parts start missing front inner behind)

include parens


/-- The parentheses that are opened up to the end of the line start in front of it. -/
theorem lt_stop {placed : Nat × Char}
    (member : placed ∈ front ++ (callParen finding, '(') :: inner) : placed.1 < finding.stop := by
  have called := parens.called
  rcases List.mem_append.mp member with ahead | here
  · have bound := parens.inFront placed ahead
    omega
  · rcases List.mem_cons.mp here with rfl | within
    · exact called.2
    · exact (parens.onLine placed within).2

/-- All closers go on closing something exactly when those of later lines that reach into the
line find as much open in front of the call. -/
theorem closers_keep_iff :
    (∀ opened closed, (opened, closed) ∈ Bracket.paren.pairs text.codeChars →
        ∃ opened', (opened', parts.moved closed) ∈ Bracket.paren.pairs mended.codeChars) ↔
      Bracket.paren.strays 0 behind ≤ (Bracket.paren.unclosedFrom [] front).length := by
  obtain ⟨stacked, reach, -⟩ := parens.stacked
  have ordered : (behind.Pairwise fun placed later => placed.1 < later.1) :=
    (List.pairwise_append.mp parens.ordered).2.1
  have ordered' := Mode.pairwise_visible .code isParen 0 mended
  rw [parens.mended] at ordered'
  obtain ⟨-, ordered'', apart⟩ := List.pairwise_append.mp ordered'
  have good : Bracket.paren.strays
      (Bracket.paren.unclosedFrom [] (front ++ (callParen finding, '(') :: inner)).length
      behind = 0 := by
    rw [Bracket.strays_eq_sub, stacked, List.length_append]
    omega
  have paired := (Bracket.forall_closers_iff (Bracket.nodup_offsets ordered _) _).mpr good
  have left : Bracket.paren.strays 0 behind ≤ (Bracket.paren.unclosedFrom [] front).length ↔
      ∀ closed ∈ Bracket.paren.closers (behind.map fun (place, c) => (parts.moved place, c)),
        ∃ opened, (opened, closed) ∈ Bracket.paren.pairsFrom (Bracket.paren.unclosedFrom [] front)
          (behind.map fun (place, c) => (parts.moved place, c)) := by
    rw [Bracket.forall_closers_iff (Bracket.nodup_offsets ordered'' _), Bracket.strays_map,
      Bracket.strays_eq_sub _ (List.length _), Nat.sub_eq_zero_iff_le]
  rw [left, parens.pairs_mended, parens.pairs_eq, Bracket.pairs, Bracket.pairsFrom_append]
  constructor
  · intro keeps moved member
    obtain ⟨⟨closed, c⟩, listed, same⟩ := List.mem_map.mp (Bracket.mem_closers.mp member)
    obtain ⟨rfl, rfl⟩ := Prod.mk.inj same
    obtain ⟨opened, pair⟩ := paired closed (Bracket.mem_closers.mpr listed)
    obtain ⟨opened', pair'⟩ := keeps opened closed (List.mem_append_right _ pair)
    refine ⟨opened', (List.mem_append.mp pair').resolve_left ?_⟩
    -- No closer of a later line stands at or in front of the added ones.
    intro ahead
    have listed' : (parts.moved closed, ')') ∈ front ++ (callParen finding, '(') :: inner ++
        (List.range' start missing).map fun place => (place, ')') := by
      rcases List.mem_append.mp ahead with line | added
      · exact List.mem_append_left _ (Bracket.closer_of_mem_pairsFrom line)
      · exact List.mem_append_right _ (List.mem_map.mpr ⟨_, (List.of_mem_zip added).2, rfl⟩)
    exact absurd (apart _ listed' _ (Bracket.mem_closers.mp member)) (Nat.lt_irrefl _)
  · intro keeps opened closed member
    rcases List.mem_append.mp member with line | later
    · rw [parens.unmoved _ (Bracket.closer_of_mem_pairsFrom line)]
      exact ⟨opened, List.mem_append_left _ (List.mem_append_left _ line)⟩
    · have listed := Bracket.closer_of_mem_pairsFrom later
      obtain ⟨opened', pair⟩ := keeps (parts.moved closed)
        (Bracket.mem_closers.mpr (List.mem_map.mpr ⟨_, listed, rfl⟩))
      exact ⟨opened', List.mem_append_right _ pair⟩

/-- The parentheses of the line that later lines close: the last ones that the line leaves open,
as many as the later lines have closers too many. -/
theorem mem_take_iff (opened : Nat) :
    opened ∈ (Bracket.paren.unclosedFrom [] inner).take (Bracket.paren.strays 0 behind) ↔
      finding.offset ≤ opened ∧ opened < finding.stop ∧ text.codeByte? opened = some '(' ∧
        ∃ closed, text.layout.matchingClose? opened = some closed ∧ finding.stop ≤ closed := by
  obtain ⟨stacked, reach, -⟩ := parens.stacked
  have taken : (Bracket.paren.unclosedFrom []
      (front ++ (callParen finding, '(') :: inner)).take (Bracket.paren.strays 0 behind) =
        (Bracket.paren.unclosedFrom [] inner).take (Bracket.paren.strays 0 behind) := by
    rw [stacked, List.take_append_of_le_length reach]
  have distinct := @Bracket.nodup_openers_append .paren _ _ parens.ordered
  have pairs_eq : Bracket.paren.pairs text.codeChars = _ :=
    parens.pairs_eq.trans (Bracket.pairsFrom_append _ _ _ _)
  constructor
  · intro member
    have onLine := parens.onLine _
      (Bracket.opener_of_mem_unclosedFrom (List.mem_of_mem_take member))
    rw [← taken] at member
    obtain ⟨closed, pair⟩ := (Bracket.exists_pair_iff_mem_take distinct
      (List.mem_of_mem_take member)).mpr member
    have listed : (opened, closed) ∈ Bracket.paren.pairs text.codeChars := by
      rw [pairs_eq]
      exact List.mem_append_right _ pair
    obtain ⟨opens, matched⟩ := Text.mem_pairs_iff_matchingClose?.mp listed
    refine ⟨onLine.1, onLine.2, opens, closed, matched, ?_⟩
    exact parens.later _ (Bracket.closer_of_mem_pairsFrom pair)
  · rintro ⟨-, ahead, opens, closed, matched, later⟩
    have pair : (opened, closed) ∈ Bracket.paren.pairs text.codeChars :=
      Text.mem_pairs_iff_matchingClose?.mpr ⟨opens, matched⟩
    rw [pairs_eq] at pair
    rcases List.mem_append.mp pair with line | pair
    · have early := parens.lt_stop (Bracket.closer_of_mem_pairsFrom line)
      exact absurd later (Nat.not_le.mpr early)
    · rcases Bracket.opener_of_mem_pairsFrom pair with listed | member
      · exact absurd (parens.later _ listed) (Nat.not_le.mpr ahead)
      · rw [← taken]
        exact (Bracket.exists_pair_iff_mem_take distinct member).mp ⟨closed, pair⟩

/-- The later lines close as many parentheses of the line as they have closers too many. -/
theorem length_closedBehind :
    (text.closedBehind .paren finding.offset finding.stop).length =
      Bracket.paren.strays 0 behind := by
  obtain ⟨-, reach, -⟩ := parens.stacked
  have listed : ((Bracket.paren.unclosedFrom [] inner).take
      (Bracket.paren.strays 0 behind)).reverse =
        text.closedBehind .paren finding.offset finding.stop := by
    apply Text.eq_filter_range
    · rw [List.pairwise_reverse]
      have ordered : inner.Pairwise fun placed later => placed.1 < later.1 := by
        have ordered := (List.pairwise_append.mp parens.ordered).1
        exact (List.pairwise_append.mp ordered).2.1.tail
      exact (Bracket.pairwise_unclosedFrom ordered .nil (by simp)).sublist (List.take_sublist _ _)
    · intro opened
      rw [List.mem_reverse, parens.mem_take_iff]
      simp only [Bool.and_eq_true, decide_eq_true_eq, beq_iff_eq, Option.any_eq_true, and_assoc]
      constructor
      · rintro ⟨starts, ahead, opens, closes⟩
        exact ⟨Text.lt_width_of_codeByte? opens, starts, ahead, opens, closes⟩
      · rintro ⟨-, closes⟩
        exact closes
  rw [← listed, List.length_reverse, List.length_take, Nat.min_eq_left reach]

/-- What stands open in front of the call is never closed: the call itself stays open, and a closer
behind it would close it first. -/
theorem length_neverClosed :
    (text.neverClosed .paren finding.offset).length =
      (Bracket.paren.unclosedFrom [] front).length := by
  obtain ⟨stacked, reach, -⟩ := parens.stacked
  have listed : (Bracket.paren.unclosedFrom [] front).reverse =
      text.neverClosed .paren finding.offset := by
    apply Text.eq_filter_range
    · rw [List.pairwise_reverse]
      have ordered := (List.pairwise_append.mp parens.ordered).1
      exact Bracket.pairwise_unclosedFrom (List.pairwise_append.mp ordered).1 .nil (by simp)
    · intro opened
      have open_iff : opened < text.width ∧ text.leavesOpen .paren opened = true ↔
          opened ∈ Bracket.paren.unclosedFrom [] text.codeChars := by
        rw [← List.mem_reverse, Text.reverse_unclosedFrom, List.mem_filter, List.mem_range]
      rw [Bracket.unclosedFrom_codeChars, isSide_paren, parens.shown, Bracket.unclosedFrom_append,
        Bracket.unclosedFrom_eq_append_drop, stacked,
        List.drop_append_of_le_length reach] at open_iff
      rw [List.mem_reverse, Bool.and_eq_true, decide_eq_true_eq, and_left_comm, open_iff]
      constructor
      · intro member
        have ahead := parens.inFront _ (Bracket.opener_of_mem_unclosedFrom member)
        exact ⟨ahead, by simp [member]⟩
      · rintro ⟨ahead, member⟩
        have called := parens.called
        simp only [List.mem_append, List.mem_cons] at member
        rcases member with later | within | rfl | member
        · have bound := parens.later _ (Bracket.opener_of_mem_unclosedFrom later)
          simp only at bound
          omega
        · have bound := parens.onLine _
            (Bracket.opener_of_mem_unclosedFrom (List.mem_of_mem_drop within))
          simp only at bound
          omega
        · omega
        · exact member
  rw [← listed, List.length_reverse]

end CallParens

/-- Closing a call leaves every other closer with something to close exactly when as many
parentheses stand open for good in front of the call as the call's line leaves to be closed by
later lines. -/
theorem closers_keep_closing_iff (checker : Checker) (text : Text) (finding : Finding)
    (member : finding ∈ checker.ruleFindings text unclosedConsoleCall) :
    ∃ left head blanks tail right missing,
      Closes finding text left head blanks tail right missing ∧
      let parts := closedParts left head blanks tail right missing
      let mended := (Repair.run text [finding]).text
      parts.before = text ∧ parts.after = mended ∧
      ((∀ opened closed, text.codeByte? opened = some '(' →
          text.layout.matchingClose? opened = some closed →
          parts.keeps closed = true ∧ ∃ opened', mended.codeByte? opened' = some '(' ∧
            mended.layout.matchingClose? opened' = some (parts.moved closed)) ↔
        (text.closedBehind .paren finding.offset finding.stop).length ≤
          (text.neverClosed .paren finding.offset).length) := by
  obtain ⟨left, name, inner, head, blanks, tail, right, missing, site⟩ := exists_callSite member
  refine ⟨left, head, blanks, tail, right, missing, site.toCloses, ?_⟩
  intro parts mended
  refine ⟨site.before_eq, site.after_eq, ?_⟩
  have parens := site.callParens
  rw [parens.length_closedBehind, parens.length_neverClosed, ← parens.closers_keep_iff]
  constructor
  · intro keeps opened closed pair
    obtain ⟨opens, matched⟩ := Text.mem_pairs_iff_matchingClose?.mp pair
    obtain ⟨-, opened', opens', matched'⟩ := keeps opened closed opens matched
    exact ⟨opened', Text.mem_pairs_iff_matchingClose?.mpr ⟨opens', matched'⟩⟩
  · intro keeps opened closed opens matched
    have pair : (opened, closed) ∈ Bracket.paren.pairs text.codeChars :=
      Text.mem_pairs_iff_matchingClose?.mpr ⟨opens, matched⟩
    obtain ⟨opened', pair'⟩ := keeps opened closed pair
    exact ⟨site.keeps_closer pair, opened', Text.mem_pairs_iff_matchingClose?.mp pair'⟩

/-- A closer of a later line is left with the parenthesis that stands open in front of the
call. -/
theorem closers_keep_closing_under_open_call :
    let checker : Checker := ⟨⟨[unclosedConsoleCall]⟩, fun _ => .failed, .none⟩
    let text : Text := "f(console.log(a(\n)\n".toList
    ∃ finding ∈ checker.ruleFindings text unclosedConsoleCall,
      (text.closedBehind .paren finding.offset finding.stop = [15] ∧
        text.neverClosed .paren finding.offset = [1]) ∧
      ∃ left head blanks tail right missing,
        Closes finding text left head blanks tail right missing ∧
        ∀ opened closed, text.codeByte? opened = some '(' →
          text.layout.matchingClose? opened = some closed →
          ∃ opened', (Repair.run text [finding]).text.layout.matchingClose? opened' =
            some ((closedParts left head blanks tail right missing).moved closed) := by
  intro checker text
  have found : ((checker.ruleFindings text unclosedConsoleCall).any fun finding =>
      text.closedBehind .paren finding.offset finding.stop == [15] &&
        text.neverClosed .paren finding.offset == [1]) = true := by
    decide +kernel
  obtain ⟨finding, member, holds⟩ := List.any_eq_true.mp found
  simp only [Bool.and_eq_true, beq_iff_eq] at holds
  obtain ⟨left, head, blanks, tail, right, missing, closes, -, -, keeps⟩ :=
    closers_keep_closing_iff checker text finding member
  refine ⟨finding, member, holds, left, head, blanks, tail, right, missing, closes, ?_⟩
  intro opened closed opens matched
  have enough : (text.closedBehind .paren finding.offset finding.stop).length ≤
      (text.neverClosed .paren finding.offset).length := by
    rw [holds.1, holds.2]
    decide
  obtain ⟨-, opened', -, matched'⟩ := keeps.mpr enough opened closed opens matched
  exact ⟨opened', matched'⟩

/-- With nothing open in front of the call, the closer of a later line is left with nothing to
close. -/
theorem closers_leave_stray_closer :
    let checker : Checker := ⟨⟨[unclosedConsoleCall]⟩, fun _ => .failed, .none⟩
    let text : Text := "console.log(foo(\n  x)\n".toList
    let mended : Text := "console.log(foo())\n  x)\n".toList
    (∃ finding ∈ checker.ruleFindings text unclosedConsoleCall,
      (Repair.run text [finding]).text = mended) ∧
    (text.codeByte? 20 = some ')' ∧ text.layout.matchingClose? 15 = some 20) ∧
    mended.codeByte? 22 = some ')' ∧
      ∀ opened, mended.layout.matchingClose? opened ≠ some 22 := by
  intro checker text mended
  have found : ((checker.ruleFindings text unclosedConsoleCall).any fun finding =>
      (Repair.run text [finding]).text == mended) = true := by
    decide +kernel
  obtain ⟨finding, member, holds⟩ := List.any_eq_true.mp found
  refine ⟨⟨finding, member, beq_iff_eq.mp holds⟩, by decide +kernel, by decide +kernel, ?_⟩
  intro opened matched
  have unpaired : (mended.layout.pairs.all fun pair => pair.2 != 22) = true := by decide +kernel
  obtain ⟨front, back, listed, -⟩ := List.lookup_eq_some_iff.mp matched
  have other := List.all_eq_true.mp unpaired (opened, 22) (by simp [listed])
  simp at other

end Delimiter

end ScriptCheck
