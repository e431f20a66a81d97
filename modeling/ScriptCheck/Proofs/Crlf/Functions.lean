import ScriptCheck.Proofs.ReturnSearch
import ScriptCheck.Proofs.Crlf.Names
import ScriptCheck.Proofs.Crlf.Rules

/-!
# Functions, calls and carriage returns

Two rules look further than their match. A function is reported if the code between its
braces has no `return`, and a call if nothing in the text declares its name and no block
follows its parentheses. Both start from the bracket that their match ends in, whose closer
is the same in both forms of a text.
-/

namespace ScriptCheck

open Pattern Check

variable {text : Text} {known : Text → Bool} {pattern : Pattern} {found : Match}

/-! ### Names and brackets of a match -/

/-- A group around a name is the same text in both forms. -/
theorem Phrase.name_of_group? (inners : pattern.inners 1 = [name])
    (counted : 1 ≤ pattern.groupCount) (member : found ∈ pattern.allMatches text) {piece : Piece}
    (group : found.group? 1 = some piece) :
    (piece.body ≠ [] ∧ ∀ c ∈ piece.body, c ≠ '\r' ∧ c ≠ '\n') ∧
      piece.crlf.body = piece.body := by
  obtain ⟨inner, listed, _, _, _, fits⟩ := fits_of_group? member Nat.one_pos counted group
  rw [inners] at listed
  obtain rfl := List.mem_singleton.mp listed
  have inLine := Reassignment.inLine_of_fits_name fits
  refine ⟨inLine, ?_⟩
  rw [(within_of_mem_allMatches member group).body_crlf,
    Text.crlf_of_oneLine fun c listed => (inLine.2 c listed).2]

namespace Match.EndsIn

variable {bracket : Char} {left right : Text}

/-- The bracket that a match ends in is the same in both forms. -/
theorem crlf (endsIn : found.EndsIn text bracket left right) (narrow : bracket.utf8Size = 1)
    (notNewline : bracket ≠ '\n') (within : found.whole.stop.Within text) :
    found.crlf.EndsIn text.crlf bracket left.crlf right.crlf := by
  constructor
  · rw [endsIn.whole, Text.crlf_append, Text.crlf_cons notNewline]
  · have stop : found.crlf.stop = text.shifted found.stop := within.offset_crlf
    have wide : found.stop = Text.width (left ++ [bracket]) := by simp [endsIn.stop, narrow]
    have whole : text = left ++ [bracket] ++ right := by simp [endsIn.whole]
    rw [stop, wide, whole, Text.shifted_width]
    simp [Text.crlf_cons notNewline, narrow]

/-- That bracket has moved by the carriage returns before it. -/
theorem stop_sub_one_crlf (endsIn : found.EndsIn text bracket left right)
    (endsIn' : found.crlf.EndsIn text.crlf bracket left.crlf right.crlf) :
    found.crlf.stop - 1 = text.shifted (found.stop - 1) := by
  rw [endsIn.stop_sub_one, endsIn'.stop_sub_one, endsIn.whole, Text.shifted_width]

end Match.EndsIn

/-! ### Functions that return nothing -/

namespace Return

/-- The body of a function ends at the same place in both forms. -/
theorem bodyEnd_crlf (none : Mode.code.ContinuesNone text)
    (opened : found.crlf.stop - 1 = text.shifted (found.stop - 1)) :
    bodyEnd text.crlf found.crlf = text.shifted (bodyEnd text found) := by
  have last : text.shifted text.width = text.crlf.width := by
    simpa using Text.shifted_width text []
  rw [bodyEnd, bodyEnd, opened, Text.matchingClose?_crlf none, ← last]
  cases text.layout.matchingClose? (found.stop - 1) <;> rfl

/-- A function is reported in both forms or in none. Its kind, its end and the words of its body are
the same in both. -/
theorem isReported_crlf (none : Mode.code.ContinuesNone text)
    (member : found ∈ functionHead.allMatches text) :
    isReported text.crlf found.crlf = isReported text found := by
  have whole : found.group? 0 = some found.whole := rfl
  have within := (within_of_mem_allMatches member whole).stop
  have inCode : text.crlf.layout.inCode found.crlf.start = text.layout.inCode found.start :=
    inCode_start_crlf steady_functionHead.shuns none member rfl
  have named : ((found.crlf.group? 1).any fun name => name.body.head?.any Char.isUpper) =
      (found.group? 1).any fun name => name.body.head?.any Char.isUpper := by
    rw [Match.group?_crlf]
    cases group : found.group? 1 with
    | none => rfl
    | some piece =>
      obtain ⟨-, same⟩ := Phrase.name_of_group? rfl (by decide) member group
      rw [Option.map_some, Option.any_some, Option.any_some, same]
  obtain ⟨left, right, endsIn⟩ := Match.exists_endsIn '\x7b' rfl rfl rfl member
  have endsIn' := endsIn.crlf rfl (by decide) within
  obtain ⟨code, gathered, stands⟩ := containsWord_body endsIn
  obtain ⟨code', gathered', stands'⟩ := containsWord_body endsIn'
  have stop : found.crlf.stop = text.shifted found.stop := within.offset_crlf
  have inLine : isInLine "return" = true := by decide
  have words : code'.containsWord "return".toList = code.containsWord "return".toList := by
    rw [Bool.eq_iff_iff, stands, stands', stop,
      bodyEnd_crlf none (endsIn.stop_sub_one_crlf endsIn'),
      Text.wordInCode_crlf none (of_isInLine inLine).1 (of_isInLine inLine).2]
  rw [isReported, isReported, inCode, named, gathered, gathered', Option.any_some, Option.any_some,
    words]

/-- The rule about missing returns is unmoved. -/
theorem unmoved_missing (none : Mode.code.ContinuesNone text) : missing.Unmoved known text := by
  have decides (text : Text) (found : Match) (member : found ∈ functionHead.allMatches text) :
      (lacksReturn ⟨text, text.layout, known, found⟩).Decides (fun _ => false)
        (isReported text found) := by
    obtain ⟨left, right, captures, occurs⟩ := occurs_of_mem_allMatches member
    exact decides_lacksReturn _ occurs
  exact Rule.unmoved_of_follows rfl decides (follows_of_steady steady_functionHead
    fun found member => isReported_crlf none member)

end Return

/-! ### Calls of undefined functions -/

namespace Call

/-- Behind the parentheses of a call a block follows in both forms or in none, because only blanks
may stand in between. -/
theorem opensBlock_crlf (none : Mode.code.ContinuesNone text)
    (opened : found.crlf.stop - 1 = text.shifted (found.stop - 1)) :
    opensBlock ⟨text.crlf, text.crlf.layout, known, found.crlf⟩ =
      opensBlock ⟨text, text.layout, known, found⟩ := by
  simp only [opensBlock]
  rw [opened, Text.matchingClose?_crlf none]
  cases pair : text.layout.matchingClose? (found.stop - 1) with
  | none => rfl
  | some closed =>
    obtain ⟨-, kind, front, rest, whole, rfl⟩ := Text.exists_closer pair
    have notNewline : kind.closer ≠ '\n' := by cases kind <;> decide
    have inLine : isInLine "\x7b" = true := by decide
    have cut : text.from? (front.width + 1) = some rest := by
      refine (Text.from?_eq_some_iff _ _ _).mpr ⟨front ++ [kind.closer], by simp [whole], ?_⟩
      simp [kind.utf8Size_closer]
    have cut' : text.crlf.from? (text.shifted front.width + 1) = some rest.crlf := by
      refine (Text.from?_eq_some_iff _ _ _).mpr ⟨front.crlf ++ [kind.closer], ?_, ?_⟩
      · rw [whole, Text.crlf_append, Text.crlf_cons notNewline]
        simp
      · rw [whole, Text.shifted_width]
        simp [kind.utf8Size_closer]
    rw [Option.map_some, Option.any_some, Option.any_some, cut, cut', Option.any_some,
      Option.any_some, Text.trimStart_crlf]
    exact Text.startsWith_crlf _ (of_isInLine inLine).2

/-- A call is reported in both forms or in none: its name, what stands in front of it and what is
declared are the same. -/
theorem isReported_crlf [Engine] (none : Mode.code.ContinuesNone text)
    (member : found ∈ call.allMatches text) :
    isReported ⟨text.crlf, text.crlf.layout, known, found.crlf⟩ =
      isReported ⟨text, text.layout, known, found⟩ := by
  have whole : found.group? 0 = some found.whole := rfl
  have within := within_of_mem_allMatches member whole
  have inCode : text.crlf.layout.inCode found.crlf.start = text.layout.inCode found.start :=
    inCode_start_crlf steady_call.shuns none member rfl
  obtain ⟨left, right, endsIn⟩ := Match.exists_endsIn '(' rfl rfl rfl member
  have opened := endsIn.stop_sub_one_crlf (endsIn.crlf rfl (by decide) within.stop)
  have block := @opensBlock_crlf text known found none opened
  have before : text.upTo? found.start = some found.whole.start.before.reverse :=
    within.start.upTo?_offset
  have before' : text.crlf.upTo? found.crlf.start =
      some (Text.crlf found.whole.start.before.reverse) := by
    have cut := within.start.crlf.upTo?_offset
    rwa [Cursor.before_crlf, List.reverse_reverse] at cut
  simp only [isReported]
  rw [Match.group?_crlf, inCode, block, before, before', Option.any_some, Option.any_some,
    Text.getLast?_crlf]
  cases group : found.group? 1 with
  | none => rfl
  | some piece =>
    obtain ⟨⟨present, inLine⟩, same⟩ := Phrase.name_of_group? rfl (by decide) member group
    rw [Option.map_some, Option.any_some, Option.any_some, same, isDeclared_crlf present inLine]

/-- The rule about undefined functions is unmoved. -/
theorem unmoved_undefined [Engine]
    (none : Mode.code.ContinuesNone text) : undefined.Unmoved known text := by
  have decides (text : Text) (found : Match) (member : found ∈ call.allMatches text) :
      (isUndefined ⟨text, text.layout, known, found⟩).Decides (isDeclared text)
        (isReported ⟨text, text.layout, known, found⟩) := by
    obtain ⟨left, right, captures, occurs⟩ := occurs_of_mem_allMatches member
    exact decides_isUndefined occurs
  exact Rule.unmoved_of_follows rfl decides (follows_of_steady steady_call
    fun found member => isReported_crlf none member)

end Call

end ScriptCheck
