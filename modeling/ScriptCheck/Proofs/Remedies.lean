import ScriptCheck.Catalogue
import ScriptCheck.Proofs.Confirmation
import ScriptCheck.Proofs.LineWeight

/-!
# What the remedies of the built-in rules change

A finding with a remedy stands on one line. Its remedy always gives another text for
that line, and one that weighs less. This holds for the line as it was searched, and it
still holds when remedies further on have been applied first: behind a finding that ends
with its line they can only have put a semicolon.

The semicolon itself is the exception. It is an insertion and weighs less only at the
very end of its line; all other remedies rewrite a text that starts with a letter.
-/

namespace ScriptCheck

open Pattern Phrase

namespace Line

/-- The first line of a text. -/
def lineOf (text : Text) : Text := text.takeWhile (· ≠ '\n')

/-- The first line of a text and what follows it. -/
theorem exists_below (text : Text) :
    ∃ below, text = lineOf text ++ below ∧ (∀ c ∈ lineOf text, c ≠ '\n') ∧
      ∀ c ∈ below.head?, c = '\n' := by
  refine ⟨text.dropWhile (· ≠ '\n'), List.takeWhile_append_dropWhile.symm, ?_, ?_⟩
  · intro c listed
    have all := List.all_takeWhile (l := text) (p := fun c => decide (c ≠ '\n'))
    simpa using List.all_eq_true.mp all c listed
  · intro c head
    have stopped := List.head?_dropWhile_not (fun c => decide (c ≠ '\n')) text
    rw [head] at stopped
    simpa using stopped

/-- The part of the text in front of a place that is on the same line, and the mode that
line starts in. -/
def Front (left : Text) (mode : Mode) (front : Text) : Prop :=
  ∃ above, left = above ++ front ∧ mode = Mode.code.after above ∧ ∀ c ∈ above.getLast?, c = '\n'

namespace Front

variable {left front : Text} {mode : Mode}

/-- The front of a line ends in the mode of the place. -/
theorem after_eq (line : Front left mode front) : mode.after front = Mode.code.after left := by
  obtain ⟨above, rfl, rfl, -⟩ := line
  rw [Mode.after_append]

/-- If no word goes on in front of a place, none does on its line. -/
theorem breaks (line : Front left mode front) (breaks : Breaks left.reverse) :
    Breaks front.reverse := by
  obtain ⟨above, rfl, -, -⟩ := line
  intro c head
  exact breaks c (by simp_all)

/-- A last character that is no newline is on the line. -/
theorem getLast? (line : Front left mode front) {c : Char} (last : left.getLast? = some c)
    (notNewline : c ≠ '\n') : front.getLast? = some c := by
  obtain ⟨above, rfl, -, newline⟩ := line
  rcases List.eq_nil_or_concat front with rfl | ⟨init, d, rfl⟩
  · rw [List.append_nil] at last
    exact absurd (newline c last) notNewline
  · simpa using last

/-- Every place is on some line. -/
theorem exists_front (left : Text) :
    ∃ mode front, Front left mode front ∧ ∀ c ∈ front, c ≠ '\n' := by
  obtain ⟨below, split, oneLine, ends⟩ := exists_below left.reverse
  refine ⟨_, (lineOf left.reverse).reverse, ⟨below.reverse, ?_, rfl, ?_⟩, ?_⟩
  · rw [← List.reverse_append, ← split, List.reverse_reverse]
  · intro c last
    exact ends c (by rwa [List.getLast?_reverse] at last)
  · intro c listed
    exact oneLine c (List.mem_reverse.mp listed)

end Front

/-- What can follow on the line behind a place once remedies further on are applied. -/
structure Tail (right tail : Text) : Prop where
  breaks : Breaks right → Breaks tail
  ending : (∀ c ∈ right.head?, c = '\n') → tail = [] ∨ tail = [';']

/-- With no remedy applied further on, the rest of the line follows, which is one of the ways that a
line can go on. -/
theorem Tail.of_line (right : Text) : Tail right (lineOf right) := by
  cases right with
  | nil => exact ⟨fun _ => .nil, fun _ => .inl rfl⟩
  | cons c right =>
    constructor
    · intro breaks
      by_cases newline : c = '\n'
      · rw [newline]
        exact .nil
      · rw [lineOf, List.takeWhile_cons_of_pos (by simpa using newline)]
        exact breaks_cons.mpr (breaks_cons.mp breaks)
    · intro ending
      obtain rfl : c = '\n' := ending c rfl
      exact .inl rfl

end Line

open Line

/-- A semicolon is put in front of the blank end of a line. -/
structure Insertion (left matched right new : Text) : Prop where
  blank : ∀ c ∈ matched, among " \t\r" c = true
  new_eq : new = ';' :: matched
  last : ∃ c, left.getLast? = some c ∧ among " \t\r\n" c = false ∧ among ";\x7d" c = false
  ending : ∀ c ∈ right.head?, c = '\n'

/-- A text that starts with a letter is rewritten to one that weighs less. -/
structure Rewrite (left matched right new : Text) : Prop where
  letter : ∃ c, matched.head? = some c ∧ c.isAlpha = true
  oneLine : ∀ c ∈ matched ++ new, c ≠ '\n'
  lowers : ∀ {mode front tail}, Front left mode front → Tail right tail →
    weight mode (front ++ (new ++ tail)) < weight mode (front ++ (matched ++ tail))

variable {new text : Text} {finding : Finding}

/-- Neither a line's blank end nor the semicolon has a newline. -/
theorem Insertion.oneLine {left matched right : Text}
    (insertion : Insertion left matched right new) : ∀ c ∈ matched ++ new, c ≠ '\n' := by
  have matched_line : ∀ c ∈ matched, c ≠ '\n' := by
    rintro c listed rfl
    cases insertion.blank _ listed
  rw [insertion.new_eq, List.forall_mem_append, List.forall_mem_cons]
  exact ⟨matched_line, by decide, matched_line⟩

/-- A semicolon in front of the blank end makes the line lighter. -/
theorem Insertion.lowers {left matched right : Text} (insertion : Insertion left matched right new)
    {mode : Mode} {front : Text} (line : Front left mode front) :
    weight mode (front ++ new) < weight mode (front ++ matched) := by
  obtain ⟨c, last, solid, unended⟩ := insertion.last
  have solid' : among " \t\r" c = false ∧ c ≠ '\n' := by
    simp [among] at solid
    simp [among, solid]
  have lower : weight mode (front ++ ([';'] ++ matched)) < weight mode (front ++ ([] ++ matched)) :=
    weight_ended (line.getLast? last solid'.2) solid'.1 unended insertion.blank
  simpa [insertion.new_eq] using lower

/-! ### The rules one by one -/

/-- A letter is a word character. -/
theorem isWordChar_of_isAlpha {c : Char} (alpha : c.isAlpha = true) : isWordChar c = true := by
  simp [isWordChar, Char.isAlphanum, alpha]

/-- A gap of spaces and tabs has no newline. -/
theorem oneLine_of_among {gap : Text} (blank : ∀ c ∈ gap, among " \t" c = true) :
    ∀ c ∈ gap, c ≠ '\n' := by
  rintro c listed rfl
  cases blank _ listed

/-- Next to letters, a word edge breaks words. -/
theorem breaks_of_edge {letters rest : Text} (present : letters ≠ [])
    (alpha : ∀ c ∈ letters, c.isAlpha = true)
    (edge : text.head?.any isWordChar ≠ (letters ++ rest).head?.any isWordChar) : Breaks text := by
  obtain ⟨c, letters, rfl⟩ := List.exists_cons_of_ne_nil present
  intro d first
  cases letter : d.isAlpha with
  | false => rfl
  | true =>
    rw [first] at edge
    simp [isWordChar_of_isAlpha (alpha c (by simp)), isWordChar_of_isAlpha letter] at edge

/-- A word that remedies replace and one that they leave alone. -/
abbrev Replaces (word fixed : Text) : Prop :=
  word.all Char.isAlpha = true ∧ fixed.all Char.isAlpha = true ∧ fixed ≠ [] ∧
    faultOf word = 1 ∧ faultOf fixed = 0

/-- A word in code is replaced, and what follows it in the match is kept. The line gets lighter, as
one word less is to replace. -/
theorem Replaces.rewrite {word fixed : Text} (replaces : Replaces word fixed)
    {left rest right : Text} (whole : text = left ++ (word ++ rest) ++ right)
    (inCode : text.layout.inCode left.width = true) (edge : Breaks left.reverse)
    (breaks : Breaks (rest ++ right)) (oneLine : ∀ c ∈ rest, c ≠ '\n') :
    Rewrite left (word ++ rest) right (fixed ++ rest) := by
  obtain ⟨allAlpha, allAlpha', present', faulty, good⟩ := replaces
  have alpha := List.all_eq_true.mp allAlpha
  have alpha' := List.all_eq_true.mp allAlpha'
  have present : word ≠ [] := by
    rintro rfl
    cases faulty
  obtain ⟨c, letters, word_eq⟩ := List.exists_cons_of_ne_nil present
  have letter : c.isAlpha = true := alpha c (by simp [word_eq])
  have inside : (Mode.code.after left).inCode = true := by
    have whole' : text = left ++ c :: (letters ++ rest ++ right) := by simp [whole, word_eq]
    exact (Text.layout_inCode_eq whole' (isPlain_of_isAlpha letter).1).symm.trans inCode
  refine ⟨⟨c, by simp [word_eq], letter⟩, ?_, ?_⟩
  · intro d listed
    have kinds : d.isAlpha = true ∨ d ∈ rest := by
      simp only [List.mem_append] at listed
      rcases listed with (inWord | inRest) | inFixed | inRest
      · exact .inl (alpha d inWord)
      · exact .inr inRest
      · exact .inl (alpha' d inFixed)
      · exact .inr inRest
    rcases kinds with letter | inRest
    · rintro rfl
      cases letter
    · exact oneLine d inRest
  · intro mode front tail line following
    have behind : Breaks (rest ++ tail) := by
      cases rest with
      | nil => exact following.breaks breaks
      | cons d rest => exact breaks_cons.mpr (breaks_cons.mp breaks)
    rw [List.append_assoc, List.append_assoc]
    exact weight_replaced (line.after_eq ▸ inside) (line.breaks edge) behind alpha alpha' present'
      faulty good

namespace Spelling

variable {id message right : String} {wrong : List String}

/-- A misspelled word gives way to the right one, which needs no replacement, and nothing else of
the line changes. -/
theorem rewrite_of_occurs (replaces : ∀ word ∈ wrong, Replaces word.toList right.toList)
    {found : Match} {text before after : Text} {captures : List Capture}
    (occurs : found.Occurs (misspelling id message wrong right).pattern text before after captures)
    (inCode : text.layout.inCode found.start = true) :
    Rewrite before found.body after right.toList := by
  obtain ⟨edge, fits₁⟩ := occurs.fits.pass_edge
  obtain ⟨word, listed, back, body, fits₂⟩ := fits₁.pass_litOf
  obtain ⟨edge', fits₃⟩ := fits₂.pass_edge
  obtain ⟨rfl, -⟩ := fits_sequence_nil.mp fits₃
  have replaces' := replaces word listed
  have alpha := List.all_eq_true.mp replaces'.1
  have present : word.toList ≠ [] := by
    intro empty
    rw [empty] at replaces'
    cases replaces'.2.2.2.1
  have before_breaks : Breaks before.reverse := by
    rw [body, List.append_nil] at edge
    exact breaks_of_edge present alpha edge
  have after_breaks : Breaks after :=
    breaks_of_edge (by simpa using present) (by simpa using alpha) edge'.symm
  rw [occurs.start_eq] at inCode
  have whole : text = before ++ (word.toList ++ []) ++ after := by rw [← body]; exact occurs.whole
  have rewrite := replaces'.rewrite whole inCode before_breaks after_breaks (by simp)
  rwa [← body, List.append_nil] at rewrite

end Spelling

namespace Reassignment

variable {captures : List Capture}

/-- A name has a character, and no line end. -/
theorem inLine_of_fits_name {before body after : Text}
    (fits : name.Fits before body after captures) :
    body ≠ [] ∧ ∀ c ∈ body, c ≠ '\r' ∧ c ≠ '\n' := by
  obtain ⟨_, rest, _, _, rfl, -, ⟨⟨first, starts, rfl⟩, -⟩, continues, -⟩ := fits
  refine ⟨by simp, fun c listed => ?_⟩
  rcases List.mem_append.mp listed with head | inRest
  · obtain rfl := List.mem_singleton.mp head
    constructor <;> rintro rfl <;> cases starts
  · constructor <;> rintro rfl <;> exact absurd (continues _ inRest) (by decide)

/-- A declaration is its keyword, a blank, and the rest on the same line up to the equals sign, with
an edge in front. -/
theorem form_of_fits_declaration {before body after : Text}
    (fits : declaration.Fits before body after captures) :
    ∃ c rest, body = "const".toList ++ c :: rest ∧ among " \t" c = true ∧
      (∀ d ∈ c :: rest, d ≠ '\n') ∧ body.getLast? = some '=' ∧
      before.head?.any isWordChar ≠ (body ++ after).head?.any isWordChar := by
  obtain ⟨edge, fits₁⟩ := fits.pass_edge
  obtain ⟨_, rfl, fits₂⟩ := fits₁.pass_lit
  obtain ⟨c, gap, _, rfl, blank, fits₃⟩ := fits₂.pass_many1
  obtain ⟨name, _, _, _, rfl, -, fitsName, fits₄⟩ := fits₃.pass_group
  obtain ⟨gap', _, rfl, blank', fits₅⟩ := fits₄.pass_many
  obtain ⟨_, rfl, fits₆⟩ := fits₅.pass_lit
  obtain ⟨rfl, -⟩ := fits_sequence_nil.mp fits₆
  refine ⟨c, gap ++ (name ++ (gap' ++ ("=".toList ++ []))), rfl, blank c (by simp), ?_,
    List.getLast?_eq_some_iff.mpr ⟨"const".toList ++ (c :: gap ++ (name ++ gap')), by simp⟩, edge⟩
  rw [← List.cons_append]
  simp only [List.forall_mem_append]
  exact ⟨oneLine_of_among blank, fun c listed => ((inLine_of_fits_name fitsName).2 c listed).2,
    oneLine_of_among blank', by simp, by simp⟩

/-- A declaration that is confirmed stands in code. -/
theorem inCode_of_isReassigned [Engine] {site : Site}
    (confirmed : (isReassigned site).Yields true) :
    site.layout.inCode site.found.start = true := by
  rw [isReassigned] at confirmed
  split at confirmed
  · cases Check.yields_pure.mp confirmed
  · cases inCode : site.layout.inCode site.found.start with
    | true => rfl
    | false =>
      rw [inCode] at confirmed
      cases Check.yields_pure.mp confirmed

/-- A constant that is assigned again is declared as a variable: the keyword is replaced, and the
rest of the match is kept. -/
theorem rewrite_of_occurs [Engine] {found : Match} {text left right : Text} {known : Text → Bool}
    (occurs : found.Occurs declaration text left right captures)
    (confirmed : (isReassigned ⟨text, text.layout, known, found⟩).Yields true)
    (groups : List (Option Text)) :
    ∃ new, declareVariable found.body groups = some new ∧ Rewrite left found.body right new := by
  obtain ⟨c, rest, body, blank, oneLine, -, edge⟩ := form_of_fits_declaration occurs.fits
  have replaces : Replaces "const".toList "let".toList := by decide
  have before_breaks : Breaks left.reverse := by
    rw [body, List.append_assoc] at edge
    exact breaks_of_edge (by decide) (List.all_eq_true.mp replaces.1) edge
  have breaks : Breaks (c :: rest ++ right) :=
    breaks_cons.mpr (of_among Char.isAlpha blank (by decide))
  have whole : text = left ++ ("const".toList ++ c :: rest) ++ right := by
    rw [← body]
    exact occurs.whole
  have inCode : text.layout.inCode left.width = true := by
    rw [← occurs.start_eq]
    exact inCode_of_isReassigned confirmed
  refine ⟨"let".toList ++ c :: rest, ?_, ?_⟩
  · rw [declareVariable, body, Text.startsWith, if_pos (by simp)]
    rfl
  · rw [body]
    exact replaces.rewrite whole inCode before_breaks breaks oneLine

end Reassignment

namespace Delimiter

/-- A console call left open is closed on its line, which leaves fewer parentheses open than
before. -/
theorem rewrite_of_occurs {found : Match} {text left right : Text} {captures : List Capture}
    {known : Text → Bool} (occurs : found.Occurs consoleCall text left right captures)
    (confirmed : isCallOpen ⟨text, text.layout, known, found⟩ = true)
    (groups : List (Option Text)) :
    ∃ new, closeCall found.body groups = some new ∧ Rewrite left found.body right new := by
  obtain ⟨openCall, inside, first, ends⟩ := openCall_of_isCallOpen occurs confirmed
  obtain ⟨new, front, blanks, final, trailing, closed, closing⟩ := closing_closeCall openCall groups
  refine ⟨new, closed, ⟨'c', first, rfl⟩, ?_, ?_⟩
  · intro c listed
    rcases List.mem_append.mp listed with inCall | inNew
    · exact openCall.oneLine c inCall
    · have kept : c ∈ found.body ∨ c = ')' := by
        rw [closing.new_eq] at inNew
        rw [closing.call_eq]
        simp only [List.mem_append, List.mem_replicate] at inNew ⊢
        grind
      rcases kept with inCall | rfl
      · exact openCall.oneLine c inCall
      · decide
  · intro mode before tail line following
    exact weight_closed (line.after_eq ▸ inside) openCall closing (following.ending ends)

end Delimiter

namespace Semicolon

/-- A line that may take a semicolon ends in neither a blank, a semicolon nor a block. -/
theorem last_of_mayEnd {left : Text} (may : mayEnd left.reverse = true) :
    ∃ c, left.getLast? = some c ∧ among " \t\r\n" c = false ∧ among ";\x7d" c = false := by
  rcases List.eq_nil_or_concat left with rfl | ⟨init, c, rfl⟩
  · cases may
  · simp only [List.concat_eq_append, List.reverse_append, List.reverse_cons, List.reverse_nil,
      List.nil_append, List.cons_append, mayEnd, Bool.and_eq_true, Bool.or_eq_true,
      Bool.not_eq_true'] at may
    obtain ⟨solid, updated | closed⟩ := may
    · have sign : c = '+' ∨ c = '-' := by
        simp only [Text.startsWith, List.isPrefixOf_iff_prefix] at updated
        rcases updated with ⟨rest, plus⟩ | ⟨rest, minus⟩
        · exact .inl (List.cons.inj plus).1.symm
        · exact .inr (List.cons.inj minus).1.symm
      refine ⟨c, by simp, solid, ?_⟩
      rcases sign with rfl | rfl
      · decide
      · decide
    · refine ⟨c, by simp, solid, ?_⟩
      cases unended : among ";\x7d" c with
      | false => rfl
      | true =>
        have listed : among openEnds c = true := of_among (among openEnds) unended (by decide)
        rw [listed] at closed
        cases closed

/-- The rule looks at the blank end of a line. -/
theorem form_of_fits_missing {before body after : Text} {captures : List Capture}
    (fits : missing.pattern.Fits before body after captures) :
    (∀ c ∈ body, among " \t\r" c = true) ∧ ∀ c ∈ after.head?, c = '\n' := by
  obtain ⟨blanks, _, _, _, rfl, -, ⟨blank, -⟩, ends, rfl, -⟩ := fits
  exact ⟨by simpa using blank, (fits_lineEnd.mp ⟨ends, rfl, rfl⟩).1⟩

/-- Where a semicolon is missing, the line ends in something other than a semicolon or a
block. -/
theorem insertion_of_occurs {found : Match} {text left right : Text} {captures : List Capture}
    {known : Text → Bool} (occurs : found.Occurs missing.pattern text left right captures)
    (confirmed : (isMissing ⟨text, text.layout, known, found⟩).Yields true) :
    Insertion left found.body right (';' :: found.body) := by
  obtain ⟨blank, ends⟩ := form_of_fits_missing occurs.fits
  obtain ⟨before, found_before, confirmed'⟩ := confirmed.of_bind
  rw [Check.yields_need, occurs.start_eq, occurs.whole, List.append_assoc,
    Text.upTo?_width] at found_before
  obtain rfl : left = before := Option.some.inj found_before
  refine ⟨blank, rfl, ?_, ends⟩
  cases may : mayEnd left.reverse with
  | true => exact last_of_mayEnd may
  | false =>
    simp only [may, Bool.not_false, ↓reduceIte, Check.yields_pure,
      Bool.false_eq_true] at confirmed'

end Semicolon

/-- The text of the group with a number, by the captures of a match. -/
def captured (captures : List Capture) (number : Nat) : Option Text :=
  (captures.find? fun capture => capture.number == number).map Capture.body

/-- Later captures win. -/
theorem captured_append (later earlier : List Capture) (number : Nat) :
    captured (later ++ earlier) number = (captured later number).or (captured earlier number) := by
  rw [captured, List.find?_append, captured, captured]
  cases later.find? fun capture => capture.number == number <;> rfl

/-- The latest capture with the number is taken. -/
theorem captured_cons (capture : Capture) (earlier : List Capture) (number : Nat) :
    captured (capture :: earlier) number =
      if capture.number = number then some capture.body else captured earlier number := by
  by_cases same : capture.number = number
  · rw [captured, List.find?_cons_of_pos (by simpa using same), if_pos same]
    rfl
  · rw [captured, List.find?_cons_of_neg (by simpa using same), if_neg same, captured]

/-- The text of a group is the one captured under its number. -/
theorem Match.Occurs.map_body_group? {found : Match} {pattern : Pattern} {left right : Text}
    {captures : List Capture} (occurs : found.Occurs pattern text left right captures)
    {number : Nat} (positive : 0 < number) (counted : number ≤ pattern.groupCount) :
    (found.group? number).map Piece.body = captured captures number := by
  rw [captured, ← occurs.group number positive counted, Option.map_map]
  rfl

namespace Block

variable {number : Nat} {found : Match} {text before body after : Text} {captures : List Capture}

/-- A remedy is given the texts of the groups, by number. -/
theorem groupText?_texts (found : Match) (positive : 0 < number) :
    groupText? found.texts number = (found.group? number).map Piece.body := by
  obtain ⟨index, rfl⟩ := Nat.exists_eq_succ_of_ne_zero (Nat.ne_of_gt positive)
  simp only [groupText?, Match.texts, Match.group?, List.getElem?_cons_succ, List.getElem?_map]
  cases found.groups[index]? with
  | none => rfl
  | some piece => rfl

/-- The remedy is given the text that a group has taken. -/
theorem groupText?_of_occurs {pattern : Pattern} {left right : Text}
    (occurs : found.Occurs pattern text left right captures) (positive : 0 < number)
    (counted : number ≤ pattern.groupCount) :
    groupText? found.texts number = captured captures number := by
  rw [groupText?_texts found positive, occurs.map_body_group? positive counted]

/-- The check is given the same text. -/
theorem group?_of_occurs {pattern : Pattern} {left right statement : Text}
    (occurs : found.Occurs pattern text left right captures) (positive : 0 < number)
    (counted : number ≤ pattern.groupCount) (taken : captured captures number = some statement) :
    ∃ piece, found.group? number = some piece ∧ piece.body = statement := by
  have kept := occurs.map_body_group? positive counted
  rw [taken] at kept
  exact Option.map_eq_some_iff.mp kept

/-- A condition is on one line, since neither the parts without parentheses nor those within them
have a newline. -/
theorem oneLine_of_fits_condition (fits : condition.Fits before body after captures) :
    ∀ c ∈ body, c ≠ '\n' := by
  have notNewline (d : Char) (other : notAmong "()\n" d = true) : d ≠ '\n' := by
    rintro rfl
    cases other
  replace fits := fits_manyRounds.mp fits
  induction fits with
  | done => simp
  | more first further ih =>
    intro c listed
    rcases List.mem_append.mp listed with inRound | inRest
    · rcases first with ⟨⟨d, other, rfl⟩, -⟩ | nested
      · obtain rfl := List.mem_singleton.mp inRound
        exact notNewline c other
      · obtain ⟨_, rfl, nested₁⟩ := Fits.pass_lit nested
        obtain ⟨inside, _, rfl, others, nested₂⟩ := nested₁.pass_many
        obtain ⟨_, rfl, nested₃⟩ := nested₂.pass_lit
        obtain ⟨rfl, -⟩ := fits_sequence_nil.mp nested₃
        simp only [List.mem_append] at inRound
        rcases inRound with opener | inside | closer | nothing
        · obtain rfl : c = '(' := by simpa using opener
          decide
        · exact notNewline c (others c inside)
        · obtain rfl : c = ')' := by simpa using closer
          decide
        · cases nothing
    · exact ih c inRest

/-- The body of a statement and the blank end of its line. -/
structure Body (body trailing after : Text) : Prop where
  solid : ∃ c ∈ body, among "; \t\r" c = false
  oneLine : ∀ c ∈ body, c ≠ '\n'
  blank : ∀ c ∈ trailing, among " \t\r" c = true
  ending : ∀ c ∈ after.head?, c = '\n'

/-- A bare body starts with a character that is neither blank nor a semicolon. The body and the
blank end behind it are captured. -/
theorem body_of_fits {accepts : Char → Bool} (starts : accepts ';' = false)
    (fits : (sequence [group number (seq (char fun c => !isBlank c && accepts c)
      (run false (· != '\n'))), lineEnding (number + 1)]).Fits before body after captures) :
    ∃ statement trailing, body = statement ++ trailing ∧ Body statement trailing after ∧
      ∀ other, captured captures other =
        if other = number then some statement
        else if other = number + 1 then some trailing else none := by
  obtain ⟨statement, _, _, _, rfl, rfl,
    ⟨_, rest, _, _, rfl, rfl, ⟨⟨c, accepted, rfl⟩, rfl⟩, line, rfl⟩,
    ⟨trailing, _, _, _, rfl, rfl, ⟨_, rfl, blank, rfl⟩, ends, rfl, rfl⟩⟩ := fits.pass_group
  simp only [Bool.and_eq_true, Bool.not_eq_true'] at accepted
  refine ⟨[c] ++ rest, trailing, by simp, ⟨⟨c, by simp, ?_⟩, ?_, blank, ?_⟩, ?_⟩
  · cases skipped : among "; \t\r" c with
    | false => rfl
    | true =>
      have kinds : c = ';' ∨ isBlank c = true := by
        have listed : c = ';' ∨ c = ' ' ∨ c = '\t' ∨ c = '\r' := by simpa [among] using skipped
        rcases listed with rfl | rfl | rfl | rfl
        · exact .inl rfl
        · exact .inr rfl
        · exact .inr rfl
        · exact .inr rfl
      rcases kinds with rfl | blank
      · rw [starts] at accepted
        cases accepted.2
      · rw [blank] at accepted
        cases accepted.1
  · intro d listed
    rcases List.mem_append.mp listed with first | inRest
    · obtain rfl := List.mem_singleton.mp first
      rintro rfl
      cases accepted.1
    · simpa using line d inRest
  · exact (fits_lineEnd.mp ⟨ends, rfl, rfl⟩).1
  · intro other
    simp only [List.append_nil, List.nil_append, captured_append, captured_cons]
    by_cases statement : number = other
    · subst statement
      simp [captured]
    · by_cases trailing : number + 1 = other
      · simp [trailing, statement, Ne.symm statement]
      · simp [trailing, statement, Ne.symm statement, Ne.symm trailing, captured]

/-- A conditional is its keyword, a condition in parentheses, and a body, with gaps within the line
and three groups. -/
theorem form_of_fits_ifPattern (fits : ifPattern.Fits before body after captures) :
    ∃ gap condition gap' statement trailing,
      body = "if".toList ++ (gap ++ ['(']) ++ condition ++ ([')'] ++ gap') ++
        (statement ++ trailing) ∧
      (∀ c ∈ gap, among " \t" c = true) ∧ (∀ c ∈ gap', among " \t" c = true) ∧
      (∀ c ∈ condition, c ≠ '\n') ∧ Body statement trailing after ∧
      captured captures 1 = some condition ∧ captured captures 2 = some statement ∧
      captured captures 3 = some trailing := by
  obtain ⟨-, fits₁⟩ := fits.pass_edge
  obtain ⟨_, rfl, fits₂⟩ := fits₁.pass_lit
  obtain ⟨gap, _, rfl, blank, fits₃⟩ := fits₂.pass_many
  obtain ⟨_, rfl, fits₄⟩ := fits₃.pass_lit
  obtain ⟨condition, _, _, _, rfl, rfl, fitsCondition, fits₅⟩ := fits₄.pass_group
  obtain ⟨_, rfl, fits₆⟩ := fits₅.pass_lit
  obtain ⟨gap', _, rfl, blank', fits₇⟩ := fits₆.pass_many
  obtain ⟨statement, trailing, rfl, isBody, groups⟩ := body_of_fits (by decide) fits₇
  refine ⟨gap, condition, gap', statement, trailing, by simp, blank, blank',
    oneLine_of_fits_condition fitsCondition, isBody, ?_, ?_, ?_⟩
  · simp [captured_append, captured_cons, groups]
  · simp [captured_append, captured_cons, groups]
  · simp [captured_append, captured_cons, groups]

/-- An alternative: its keyword and a body. -/
theorem form_of_fits_elsePattern (fits : elsePattern.Fits before body after captures) :
    ∃ gap statement trailing, body = "else".toList ++ gap ++ (statement ++ trailing) ∧ gap ≠ [] ∧
      (∀ c ∈ gap, among " \t" c = true) ∧ Body statement trailing after ∧
      captured captures 1 = some statement ∧ captured captures 2 = some trailing := by
  obtain ⟨-, fits₁⟩ := fits.pass_edge
  obtain ⟨_, rfl, fits₂⟩ := fits₁.pass_lit
  obtain ⟨c, gap, _, rfl, blank, fits₃⟩ := fits₂.pass_many1
  obtain ⟨statement, trailing, rfl, isBody, groups⟩ := body_of_fits (by decide) fits₃
  refine ⟨c :: gap, statement, trailing, by simp, by simp, blank, isBody, ?_, ?_⟩
  · simp [groups]
  · simp [groups]

/-- The end given to a statement leaves it on its line. -/
theorem oneLine_ended (oneLine : ∀ c ∈ body, c ≠ '\n') : ∀ c ∈ ended body, c ≠ '\n' := by
  obtain ⟨final, ended, ending⟩ := ended_eq body
  obtain ⟨blanks, trimmed, -⟩ := Text.exists_blanks_of_trimEnd body
  intro c listed
  rw [ended] at listed
  rcases List.mem_append.mp listed with inBody | inFinal
  · exact oneLine c (by rw [trimmed]; exact List.mem_append_left _ inBody)
  · rcases ending with rfl | rfl
    · cases inFinal
    · obtain rfl := List.mem_singleton.mp inFinal
      decide

/-- A head before and after, a body that can be wrapped, and the end of its line. -/
theorem rewrite_of_body {left right old new trailing : Text}
    (letter : ∃ c, old.head? = some c ∧ c.isAlpha = true) (oneLine : ∀ d ∈ old ++ new, d ≠ '\n')
    (heads : SameHead (Mode.code.after left) old new) (isBody : Body body trailing right)
    (wrappable : isWrappable body = true) :
    Rewrite left (old ++ (body ++ trailing)) right
      (new ++ (ended body ++ (" \x7d".toList ++ trailing))) := by
  obtain ⟨c, head, alpha⟩ := letter
  have unbraced : ∀ d ∈ body, d ≠ '\x7d' := by
    simp only [isWrappable, Bool.and_eq_true, Bool.not_eq_true', List.any_eq_false] at wrappable
    rintro d listed rfl
    exact wrappable.1.1.1.2 _ listed (by decide)
  have trailing_oneLine : ∀ d ∈ trailing, d ≠ '\n' := by
    rintro d listed rfl
    cases isBody.blank _ listed
  refine ⟨⟨c, by rw [List.head?_append, head]; rfl, alpha⟩, ?_, ?_⟩
  · intro d listed
    simp only [List.mem_append] at listed oneLine
    rcases listed with (inOld | inBody | inTrailing) | inNew | inEnded | inBrace | inTrailing
    · exact oneLine d (.inl inOld)
    · exact isBody.oneLine d inBody
    · exact trailing_oneLine d inTrailing
    · exact oneLine d (.inr inNew)
    · exact oneLine_ended isBody.oneLine d inEnded
    · rintro rfl
      exact absurd inBrace (by decide)
    · exact trailing_oneLine d inTrailing
  · intro mode front tail line following
    have lower := weight_wrapped (line.after_eq ▸ heads) unbraced isBody.solid isBody.blank
      (following.ending isBody.ending)
    simpa only [List.append_assoc] using lower

/-- An `if` with a bare body gets braces around it. The words and parentheses stay, and the line
then ends in a block. -/
theorem rewrite_of_occurs_if {left right : Text}
    (occurs : found.Occurs ifPattern text left right captures)
    (wrappable : ((found.group? 2).any fun body => isWrappable body.body) = true) :
    ∃ new, wrapIf found.body found.texts = some new ∧ Rewrite left found.body right new := by
  obtain ⟨gap, condition, gap', statement, trailing, body, blank, blank', line, isBody, group₁,
    group₂, group₃⟩ := form_of_fits_ifPattern occurs.fits
  have texts (number : Nat) (positive : 0 < number) (counted : number ≤ 3) :=
    groupText?_of_occurs occurs positive counted
  have wrappable' : isWrappable statement = true := by
    obtain ⟨piece, group, rfl⟩ := group?_of_occurs occurs (by decide) (by decide) group₂
    rw [group] at wrappable
    exact wrappable
  have heads : SameHead (Mode.code.after left)
      ("if".toList ++ (gap ++ ['(']) ++ condition ++ ([')'] ++ gap'))
      ("if".toList ++ " (".toList ++ condition ++ ") \x7b ".toList) :=
    sameHead_if (Mode.proper_code_after left) blank blank'
  have oneLine : ∀ c ∈ "if".toList ++ (gap ++ ['(']) ++ condition ++ ([')'] ++ gap') ++
      ("if".toList ++ " (".toList ++ condition ++ ") \x7b ".toList), c ≠ '\n' := by
    simp only [List.forall_mem_append]
    exact ⟨⟨⟨⟨by simp, oneLine_of_among blank, by simp⟩, line⟩, by simp, oneLine_of_among blank'⟩,
      ⟨⟨by simp, by simp⟩, line⟩, by simp⟩
  have rewrite := rewrite_of_body ⟨'i', rfl, rfl⟩ oneLine heads isBody wrappable'
  rw [← body] at rewrite
  refine ⟨_, ?_, rewrite⟩
  simp only [wrapIf, texts 1 (by decide) (by decide), texts 2 (by decide) (by decide),
    texts 3 (by decide) (by decide), group₁, group₂, group₃]
  simp [wrapped]

/-- An `else` with a bare body gets braces around it, and the line then ends in a block. -/
theorem rewrite_of_occurs_else {left right : Text} {known : Text → Bool}
    (occurs : found.Occurs elsePattern text left right captures)
    (confirmed : (isBareElse ⟨text, text.layout, known, found⟩).Yields true) :
    ∃ new, wrapElse found.body found.texts = some new ∧ Rewrite left found.body right new := by
  obtain ⟨gap, statement, trailing, body, present, blank, isBody, group₁, group₂⟩ :=
    form_of_fits_elsePattern occurs.fits
  have texts (number : Nat) (positive : 0 < number) (counted : number ≤ 2) :=
    groupText?_of_occurs occurs positive counted
  have wrappable : isWrappable statement = true := by
    obtain ⟨piece, group, rfl⟩ := group?_of_occurs occurs (by decide) (by decide) group₁
    rw [isBareElse, group] at confirmed
    obtain ⟨chained, -, last⟩ := confirmed.of_bind
    rw [Check.yields_pure, Bool.and_eq_true] at last
    exact last.2
  have heads : SameHead (Mode.code.after left) ("else".toList ++ gap)
      ("else".toList ++ " \x7b ".toList) :=
    sameHead_else (Mode.proper_code_after left) present blank
  have oneLine : ∀ c ∈ "else".toList ++ gap ++ ("else".toList ++ " \x7b ".toList), c ≠ '\n' := by
    simp only [List.forall_mem_append]
    exact ⟨⟨by simp, oneLine_of_among blank⟩, by simp, by simp⟩
  have rewrite := rewrite_of_body ⟨'e', rfl, rfl⟩ oneLine heads isBody wrappable
  rw [← body] at rewrite
  refine ⟨_, ?_, rewrite⟩
  simp only [wrapElse, texts 1 (by decide) (by decide), texts 2 (by decide) (by decide), group₁,
    group₂]
  simp [wrapped]

end Block

/-! ### All rules -/

/-- What a finding with a remedy has changed in its text. -/
structure Finding.Edits (finding : Finding) (text left right new : Text) : Prop where
  whole : text = left ++ finding.matched ++ right
  offset : left.width = finding.offset
  length : finding.matched.width = finding.length
  replaced : finding.replacement? = some new
  edit : (finding.rule = Semicolon.missing.id ∧ Insertion left finding.matched right new) ∨
    Rewrite left finding.matched right new

/-- No remedy gives back what it was given. -/
theorem Finding.Edits.ne {left right : Text} (edits : finding.Edits text left right new) :
    new ≠ finding.matched := by
  rintro rfl
  rcases edits.edit with ⟨-, insertion⟩ | rewrite
  · exact absurd (congrArg List.length insertion.new_eq) (by simp)
  · obtain ⟨mode, front, line, -⟩ := Front.exists_front left
    exact Nat.lt_irrefl _ (rewrite.lowers line (.of_line right))

/-- No remedy goes over the end of its line. -/
theorem Finding.Edits.oneLine {left right : Text} (edits : finding.Edits text left right new) :
    ∀ c ∈ finding.matched ++ new, c ≠ '\n' := by
  rcases edits.edit with ⟨-, insertion⟩ | rewrite
  · exact insertion.oneLine
  · exact rewrite.oneLine

/-- A built-in rule with a remedy edits what it finds. The rules are gone through, with one lemma
for each kind of remedy. -/
theorem Rule.edits_of_mem_builtin [Engine] {rule : Rule} (builtin : rule ∈ Catalogue.builtin.rules)
    {known : Text → Bool} {findings : List Finding}
    (listed : rule.findings? known text = some findings) (member : finding ∈ findings)
    (fixable : finding.isFixable = true) : ∃ left right new, finding.Edits text left right new := by
  obtain ⟨found, left, right, captures, rfl, occurs, confirmed⟩ :=
    exists_match_of_mem_findings? listed member
  suffices edit : ∃ new, (rule.finding text found).replacement? = some new ∧
      ((rule.id = Semicolon.missing.id ∧ Insertion left found.body right new) ∨
        Rewrite left found.body right new) by
    obtain ⟨new, replaced, edit⟩ := edit
    exact ⟨left, right, new, occurs.whole, occurs.start_eq.symm, occurs.width_eq.symm, replaced,
      edit⟩
  simp only [Catalogue.builtin, List.mem_cons, List.not_mem_nil, or_false] at builtin
  rcases builtin with rfl | rfl | rfl | rfl | rfl | rfl | rfl | rfl | rfl | rfl | rfl | rfl | rfl
  · exact ⟨_, rfl, .inl ⟨rfl, Semicolon.insertion_of_occurs occurs (confirmed _ rfl)⟩⟩
  · have holds := Check.yields_pure.mp (confirmed _ rfl)
    obtain ⟨new, replaced, rewrite⟩ :=
      Block.rewrite_of_occurs_if occurs (Bool.and_eq_true_iff.mp holds).2
    exact ⟨new, replaced, .inr rewrite⟩
  · obtain ⟨new, replaced, rewrite⟩ := Block.rewrite_of_occurs_else occurs (confirmed _ rfl)
    exact ⟨new, replaced, .inr rewrite⟩
  · obtain ⟨new, replaced, rewrite⟩ :=
      Reassignment.rewrite_of_occurs occurs (confirmed _ rfl) found.texts
    exact ⟨new, replaced, .inr rewrite⟩
  · exact ⟨_, rfl, .inr (Spelling.rewrite_of_occurs (by decide) occurs
      (Check.yields_pure.mp (confirmed _ rfl)))⟩
  · exact ⟨_, rfl, .inr (Spelling.rewrite_of_occurs (by decide) occurs
      (Check.yields_pure.mp (confirmed _ rfl)))⟩
  · exact ⟨_, rfl, .inr (Spelling.rewrite_of_occurs (by decide) occurs
      (Check.yields_pure.mp (confirmed _ rfl)))⟩
  · obtain ⟨new, replaced, rewrite⟩ :=
      Delimiter.rewrite_of_occurs occurs (Check.yields_pure.mp (confirmed _ rfl)) found.texts
    exact ⟨new, replaced, .inr rewrite⟩
  -- The other rules have no remedy.
  all_goals cases fixable

end ScriptCheck
