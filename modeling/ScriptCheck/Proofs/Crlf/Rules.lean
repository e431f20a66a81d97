import ScriptCheck.Proofs.Decision
import ScriptCheck.Proofs.Remedies
import ScriptCheck.Proofs.Crlf.Layout
import ScriptCheck.Proofs.Crlf.Phrases

/-!
# Rules and carriage returns

A rule is unmoved by carriage returns if it reports the same lines and columns in both forms of a
text. It is if the matches of its pattern go together one by one, start at the same places,
and its check decides about them alike. This is shown here for the rules that look at
nothing but their match and the layout of the text: misspelled names, delimiters left open,
bodies without braces and statements without a semicolon.

The layout is the same in both forms as long as no backslash takes a newline along in a
literal.
-/

namespace ScriptCheck

/-- What a finding says of where it stands. -/
def Finding.position (finding : Finding) : String × Option Nat × Option Nat :=
  (finding.rule, finding.line, finding.column)

/-- The rule reports at the same lines and columns in both forms of a text. -/
def Rule.Unmoved (rule : Rule) (known : Text → Bool) (text : Text) : Prop :=
  (rule.findings? known text.crlf).map (List.map Finding.position) =
    (rule.findings? known text).map (List.map Finding.position)

variable {text : Text} {known : Text → Bool}

/-- Of lists that go together the same elements are kept. -/
theorem map_filter_of_forall₂ {α β γ : Type} {keep : α → Bool} {keep' : β → Bool} {f : α → γ}
    {g : β → γ} {elements : List α} {elements' : List β}
    (each : List.Forall₂ (fun element element' => keep' element' = keep element ∧
      g element' = f element) elements elements') :
    (elements'.filter keep').map g = (elements.filter keep).map f := by
  have kept : List.Forall₂ (fun element element' => keep' element' = keep element ∧
      g element' = f element) (elements.filter keep) (elements'.filter keep') :=
    List.rel_filter (fun _ _ same => by simp [same.1]) each
  have same : List.Forall₂ Eq ((elements.filter keep).map f) ((elements'.filter keep').map g) :=
    List.rel_map (fun _ _ same => same.2.symm) kept
  rw [List.forall₂_eq_eq_eq] at same
  exact same.symm

namespace Rule

/-- Matches that start at the same place have the same position. -/
theorem position_crlf (rule : Rule) {found found' : Match}
    (within : found.whole.start.Within text)
    (start : found'.whole.start = found.whole.start.crlf) :
    (rule.finding text.crlf found').position = (rule.finding text found).position := by
  have offset : found.start = Text.width found.whole.start.before.reverse :=
    Cursor.Within.offset_eq _
  have offset' : found'.start = Text.width (Text.crlf found.whole.start.before.reverse) := by
    rw [Match.start, start]
    exact Text.width_reverse _
  simp only [Finding.position, finding]
  rw [offset, offset', within, Text.lineNumber_crlf, Text.columnNumber_crlf]

/-- How matches in the two texts go together of which the check decides alike. -/
structure Follows (text : Text) (holds : Text → Match → Bool) (found found' : Match) : Prop where
  within : found.whole.start.Within text
  start : found'.whole.start = found.whole.start.crlf
  decided : holds text.crlf found' = holds text found

/-- A rule is unmoved if its check decides alike about both texts. -/
theorem unmoved_of_follows {rule : Rule} {check : Site → Check Bool}
    (confirm : rule.confirm = some check) {answer : Text → Text → Bool}
    {holds : Text → Match → Bool}
    (decides : ∀ text, ∀ found ∈ rule.pattern.allMatches text,
      (check ⟨text, text.layout, known, found⟩).Decides (answer text) (holds text found))
    (follows : List.Forall₂ (Follows text holds) (rule.pattern.allMatches text)
      (rule.pattern.allMatches text.crlf)) : rule.Unmoved known text := by
  rw [Unmoved, findings?_of_decides confirm (decides text),
    findings?_of_decides confirm (decides text.crlf), Option.map_some, Option.map_some,
    List.map_map, List.map_map]
  congr 1
  refine map_filter_of_forall₂ (follows.imp fun found found' same => ?_)
  exact ⟨same.decided, rule.position_crlf same.within same.start⟩

/-- The same for a rule whose check is a plain test of the place. -/
theorem unmoved_of_test {rule : Rule} {test : Site → Bool}
    (confirm : rule.confirm = some fun site => pure (test site))
    (follows : List.Forall₂
      (Follows text fun text found => test ⟨text, text.layout, known, found⟩)
      (rule.pattern.allMatches text) (rule.pattern.allMatches text.crlf)) :
    rule.Unmoved known text :=
  @unmoved_of_follows text known rule _ confirm (fun _ _ => false) _
    (fun _ _ _ => Check.decides_pure _) follows

end Rule

namespace Pattern

variable {pattern : Pattern} {holds : Text → Match → Bool}

/-- Where a pattern that shuns a newline matches, there is none ahead. -/
theorem start_of_mem_allMatches (shuns : pattern.Shuns) {found : Match}
    (member : found ∈ pattern.allMatches text) :
    found.whole.start.Within text ∧ found.whole.start.atNewline = false := by
  obtain ⟨cursor, listed, matched⟩ := matchAt?_of_mem_matchesFrom member
  obtain ⟨start, -⟩ := occurs_of_matchAt? listed matched
  rw [start]
  refine ⟨.of_mem_all listed, ?_⟩
  cases newline : cursor.atNewline with
  | false => rfl
  | true =>
    rw [matchAt?_of_shuns shuns newline] at matched
    cases matched

/-- A match is in code in both texts or in none. -/
theorem inCode_start_crlf (shuns : pattern.Shuns) (none : Mode.code.ContinuesNone text)
    {found found' : Match} (member : found ∈ pattern.allMatches text)
    (start : found'.whole.start = found.whole.start.crlf) :
    text.crlf.layout.inCode found'.start = text.layout.inCode found.start := by
  obtain ⟨within, other⟩ := start_of_mem_allMatches shuns member
  rw [Match.start, start, within.inCode_crlf other none]
  rfl

/-- The matches of a steady pattern go together. -/
theorem follows_of_steady (steady : pattern.Steady)
    (decided : ∀ found ∈ pattern.allMatches text,
      holds text.crlf found.crlf = holds text found) :
    List.Forall₂ (Rule.Follows text holds) (pattern.allMatches text)
      (pattern.allMatches text.crlf) := by
  rw [allMatches_crlf steady.commutes steady.shuns, List.forall₂_map_right_iff,
    List.forall₂_same]
  intro found member
  exact ⟨(start_of_mem_allMatches steady.shuns member).1, rfl, decided found member⟩

/-- The matches of a pattern that closes go together. -/
theorem follows_of_closes {number : Nat} (closes : pattern.Closes number)
    (pauses : pattern.Pauses)
    (decided : ∀ found ∈ pattern.allMatches text, ∀ found', found.Closes number found' →
      holds text.crlf found' = holds text found) :
    List.Forall₂ (Rule.Follows text holds) (pattern.allMatches text)
      (pattern.allMatches text.crlf) := by
  have both := (List.forall₂_and_left _ _).mpr
    ⟨fun found member => member, forall₂_allMatches closes pauses text⟩
  refine both.imp fun found found' ⟨member, closes⟩ => ?_
  have whole : found.group? 0 = some found.whole := rfl
  exact ⟨(within_of_mem_allMatches member whole).start, closes.start,
    decided found member found' closes⟩

end Pattern

/-- The carriage return that the CRLF text has in front of a newline. -/
def Cursor.crAhead (cursor : Cursor) : Text := if cursor.atNewline then ['\r'] else []

/-- Only a carriage return is between the two forms of a place. -/
theorem Cursor.spans_closed (cursor : Cursor) :
    cursor.crlf.Spans cursor.closed cursor.crAhead := by
  cases newline : cursor.atNewline with
  | false =>
    rw [closed_of_not newline, crAhead, newline]
    exact .refl _
  | true =>
    obtain ⟨rest, ahead⟩ := atNewline_iff.mp newline
    rw [closed_of_newline ahead, crAhead, newline]
    exact .pass (by simp [ahead])

/-- A match that runs to a line's end takes the carriage return along. -/
theorem Match.Closes.body_eq {number : Nat} {found found' : Match}
    (closes : found.Closes number found')
    (spans : found.whole.start.Spans found.whole.stop found.body) :
    found'.body = found.body.crlf ++ found.whole.stop.crAhead := by
  have spans' := spans.crlf.trans found.whole.stop.spans_closed
  rw [← closes.start, ← closes.stop] at spans'
  exact spans'.piece_body

open Pattern Check

/-! ### Misspelled names -/

/-- Every rule about misspelt words is unmoved. -/
theorem Spelling.unmoved_misspelling (id message : String) {wrong : List String}
    (inLine : wrong.all isInLine = true) (right : String) (none : Mode.code.ContinuesNone text) :
    (misspelling id message wrong right).Unmoved known text := by
  have steady := steady_misspelling inLine
  refine Rule.unmoved_of_test rfl (follows_of_steady steady ?_)
  intro found member
  exact inCode_start_crlf steady.shuns none member rfl

/-! ### Delimiters left open -/

namespace Delimiter

/-- What is left open is the same delimiter. -/
theorem unmoved_leftOpen (id message : String) {delimiter : Char → Bool}
    {offset : Balance → Option Nat} (cr : delimiter '\r' = false)
    (newline : delimiter '\n' = false)
    (moves : offset text.crlf.balance = (offset text.balance).map text.shifted) :
    (leftOpen id message delimiter offset).Unmoved known text := by
  refine Rule.unmoved_of_test rfl (follows_of_steady (steady_char cr newline) ?_)
  intro found member
  obtain ⟨within, -⟩ := start_of_mem_allMatches (steady_char cr newline).shuns member
  have start : found.crlf.start = text.shifted found.start := within.offset_crlf
  show (offset text.crlf.balance == some found.crlf.start) =
    (offset text.balance == some found.start)
  rw [moves, start, Bool.eq_iff_iff, beq_iff_eq, beq_iff_eq]
  cases offset text.balance <;> simp [text.shifted_inj]

/-- The call opens the same parenthesis, and its line leaves a string open or not, whether or not it
ends in a carriage return. -/
theorem isCallOpen_crlf (none : Mode.code.ContinuesNone text) {found found' : Match}
    (member : found ∈ consoleCall.allMatches text) (closes : found.Closes 0 found') :
    isCallOpen ⟨text.crlf, text.crlf.layout, known, found'⟩ =
      isCallOpen ⟨text, text.layout, known, found⟩ := by
  obtain ⟨left, right, captures, occurs⟩ := occurs_of_mem_allMatches member
  obtain ⟨head, rest, form, -, isHead, line, -⟩ := form_of_fits_consoleCall occurs.fits
  have oneLine : ∀ c ∈ head, c ≠ '\n' := by
    rintro c listed rfl
    exact absurd (isHead _ listed) (by decide)
  have oneLine' : ∀ c ∈ found.body, c ≠ '\n' := by
    intro c listed
    rw [form, List.mem_append, List.mem_cons] at listed
    rcases listed with front | rfl | back
    · exact oneLine c front
    · decide
    · exact line c back
  have body : found'.body = found.body ++ found.whole.stop.crAhead := by
    rw [closes.body_eq occurs.spans, Text.crlf_of_oneLine oneLine']
  have form' : found'.body = head ++ '(' :: (rest ++ found.whole.stop.crAhead) := by
    rw [body, form]
    simp
  have inCode := inCode_start_crlf shuns_consoleCall none member closes.start
  have opened : found'.start + Text.width head = text.shifted (found.start + Text.width head) := by
    have start : found'.start = Text.width (Text.crlf left) := by
      rw [Match.start, closes.start, Cursor.Within.offset_eq, Cursor.before_crlf, occurs.before,
        List.reverse_reverse, List.reverse_reverse]
    have whole : text = left ++ head ++ ('(' :: rest ++ right) := by rw [occurs.whole, form]; simp
    rw [start, occurs.start_eq, ← Text.width_append left, whole, Text.shifted_width,
      Text.crlf_append, Text.width_append, Text.crlf_of_oneLine oneLine]
  have string : found'.body.balance.string.isNone = found.body.balance.string.isNone := by
    rw [body, Cursor.crAhead]
    split
    · exact Text.unterminated?_concat_cr _
    · rw [List.append_nil]
  simp only [isCallOpen, inCode, string]
  rw [form', form, takeWhile_of_isCallHead isHead, takeWhile_of_isCallHead isHead, opened,
    Text.matchingClose?_crlf none]
  simp

/-- The rule about open calls is unmoved. -/
theorem unmoved_unclosedConsoleCall (none : Mode.code.ContinuesNone text) :
    unclosedConsoleCall.Unmoved known text :=
  Rule.unmoved_of_test rfl (follows_of_closes closes_consoleCall
    (.inl fun _ newline => matchAt?_of_shuns shuns_consoleCall newline)
    fun _ member _ closes => isCallOpen_crlf none member closes)

end Delimiter

/-! ### Bodies without braces -/

namespace Block

open Phrase

/-- A body on one line is judged by the same text in both forms, since it has no newline and its
group is not the blank end. -/
theorem any_body_crlf {pattern : Pattern} {number : Nat} (key : Nat) {starts : Char → Bool}
    (newline : starts '\n' = false)
    (inners : pattern.inners key = [seq (char starts) (run false (· != '\n'))])
    (positive : 0 < key) (counted : key ≤ pattern.groupCount) (other : key ≠ number)
    {found found' : Match} (member : found ∈ pattern.allMatches text)
    (closes : found.Closes number found') (test : Text → Bool) :
    ((found'.group? key).any fun piece => test piece.body) =
      (found.group? key).any fun piece => test piece.body := by
  rw [closes.group key (Nat.ne_of_gt positive) other, Option.any_map]
  cases group : found.group? key with
  | none => rfl
  | some piece =>
    obtain ⟨inner, listed, _, _, _, fits⟩ := fits_of_group? member positive counted group
    rw [inners] at listed
    obtain rfl := List.mem_singleton.mp listed
    have oneLine : ∀ c ∈ piece.body, c ≠ '\n' := by
      obtain ⟨_, rest, _, _, body, -, ⟨⟨first, accepted, rfl⟩, -⟩, continues, -⟩ := fits
      rintro c listed rfl
      rcases List.mem_append.mp (body ▸ listed) with head | inRest
      · obtain rfl := List.mem_singleton.mp head
        simp [newline] at accepted
      · simpa using continues _ inRest
    have within := within_of_mem_allMatches member group
    simp only [Option.any_some, within.body_crlf, Text.crlf_of_oneLine oneLine]

/-- The rule about bare conditions is unmoved. -/
theorem unmoved_bareIf (none : Mode.code.ContinuesNone text) : bareIf.Unmoved known text := by
  refine Rule.unmoved_of_test rfl (follows_of_closes closes_ifPattern
    (.inl fun _ newline => matchAt?_of_shuns shuns_ifPattern newline) ?_)
  intro found member found' closes
  have inCode := inCode_start_crlf shuns_ifPattern none member closes.start
  have body := any_body_crlf 2 (by decide) rfl (by decide) (by decide) (by decide) member closes
  simp only [inCode, body]

/-- The rule about bare alternatives is unmoved. -/
theorem unmoved_bareElse (none : Mode.code.ContinuesNone text) : bareElse.Unmoved known text := by
  refine Rule.unmoved_of_follows rfl
    (fun text found _ => decides_isBareElse (fun _ => false) ⟨text, text.layout, known, found⟩)
    (follows_of_closes closes_elsePattern
      (.inl fun _ newline => matchAt?_of_shuns shuns_elsePattern newline) ?_)
  intro found member found' closes
  have inCode := inCode_start_crlf shuns_elsePattern none member closes.start
  have body := any_body_crlf 1 (by decide) rfl (by decide) (by decide) (by decide) member closes
  simp only [isReported, inCode]
  exact body fun body => !chains body && text.layout.inCode found.start && isWrappable body

end Block

/-! ### Statements without a semicolon -/

namespace Semicolon

open Phrase

/-- Whether a line may still take a semicolon hangs on its last character and on whether it
ends in an update. -/
theorem mayEnd_eq (before : Text) :
    mayEnd before = before.head?.any fun last => !among " \t\r\n" last &&
      (before.startsWith "++".toList || before.startsWith "--".toList ||
        !among openEnds last) := by
  cases before <;> rfl

/-- A line may take a semicolon in both forms or in none. -/
theorem mayEnd_crlf (left : Text) : mayEnd left.crlf.reverse = mayEnd left.reverse := by
  -- An update reads the same from back to front.
  have updated (sign : Char) (inLine : sign ≠ '\r' ∧ sign ≠ '\n') :
      Text.startsWith left.crlf.reverse [sign, sign] =
        Text.startsWith left.reverse [sign, sign] :=
    @Text.endsWith_crlf left [sign, sign] (by simp [inLine])
  have plus : Text.startsWith left.crlf.reverse "++".toList = _ := updated '+' (by decide)
  have minus : Text.startsWith left.crlf.reverse "--".toList = _ := updated '-' (by decide)
  rw [mayEnd_eq, mayEnd_eq, plus, minus, List.head?_reverse, List.head?_reverse,
    Text.getLast?_crlf]
  rfl

/-- A statement is finished behind a place in both forms or in none. -/
theorem isFinished_crlf {left right : Text} (noCr : '\r' ∉ right) :
    isFinished (left ++ right).crlf left.crlf.width =
      isFinished (left ++ right) left.width := by
  rw [isFinished, isFinished, Text.crlf_append, Text.nextLine?_width, Text.nextLine?_width,
    Text.drop_lines_crlf noCr]

/-- A line lacks its semicolon in both forms or in none: its own text, its mode and the next line
are the same. -/
theorem isReported_crlf {left right : Text} (noCr : '\r' ∉ left ++ right)
    (none : Mode.code.ContinuesNone (left ++ right)) :
    isReported (left ++ right).crlf left.crlf = isReported (left ++ right) left := by
  have finished := @isFinished_crlf left right fun listed =>
    noCr (List.mem_append_right _ listed)
  rw [isReported, isReported, mayEnd_crlf, Text.lastLine_crlf, finished]
  cases ends : mayEnd left.reverse with
  | false => rfl
  | true =>
    obtain ⟨c, last, solid, -⟩ := last_of_mayEnd ends
    obtain ⟨front, rfl⟩ := List.getLast?_eq_some_iff.mp last
    have newline : c ≠ '\n' := by
      rintro rfl
      cases solid
    have inCode := @endsInCode_crlf front right c (by simpa using none) newline
    have width : Text.width (front ++ [c]) = Text.width front + c.utf8Size := by simp
    have width' : Text.width (Text.crlf (front ++ [c])) =
        Text.width (Text.crlf front) + c.utf8Size := by
      simp [Text.crlf_cons newline]
    have whole : front ++ [c] ++ right = front ++ c :: right := by simp
    rw [whole, width, width', inCode]

/-- The rule about semicolons is unmoved. -/
theorem unmoved_missing (noCr : '\r' ∉ text) (none : Mode.code.ContinuesNone text) :
    missing.Unmoved known text := by
  refine Rule.unmoved_of_follows rfl
    (fun _ _ member => decides_isMissing_of_mem (fun _ => false) member)
    (follows_of_closes closes_missing pauses_missing ?_)
  intro found member found' closes
  have whole : found.group? 0 = some found.whole := rfl
  have within := (within_of_mem_allMatches member whole).start
  rw [closes.start, Cursor.before_crlf, List.reverse_reverse]
  rw [within] at noCr none ⊢
  exact isReported_crlf noCr none

end Semicolon

end ScriptCheck
