import ScriptCheck.Proofs.Decision
import ScriptCheck.Proofs.Pairing

/-!
# Searching the body of a function

To look for a `return`, the code of a function's body is put together from the regions of
the body, cut to it and kept apart by blanks, and the word is searched for in what comes of
it. The result is that of a search in place: a function is reported exactly when no six
bytes of code behind its opening brace and in front of its closing one, or of the end of the
text, read `return` with no identifier byte on either side.
-/

namespace ScriptCheck

open Pattern

variable {text : Text} {found : Match}

/-! ### The bracket at the end of a match -/

/-- What fits a list of patterns that ends in a string ends in that string. The induction is on the
list. -/
theorem Pattern.Fits.exists_append_lit {patterns : List Pattern} {string : String}
    (last : patterns.getLast? = some (lit string)) {before body after : Text}
    {captures : List Capture} (fits : (sequence patterns).Fits before body after captures) :
    ∃ front, body = front ++ string.toList := by
  induction patterns generalizing before body captures with
  | nil => cases last
  | cons first rest ih =>
    obtain ⟨front, back, _, _, rfl, -, here, further⟩ := fits_sequence_cons.mp fits
    cases rest with
    | nil =>
      obtain rfl : first = lit string := by simpa using last
      obtain ⟨rfl, -⟩ := fits_lit.mp here
      obtain ⟨rfl, -⟩ := fits_sequence_nil.mp further
      exact ⟨[], by simp⟩
    | cons second rest =>
      rw [List.getLast?_cons_cons] at last
      obtain ⟨middle, rfl⟩ := ih last further
      exact ⟨front ++ middle, by simp⟩

/-- A match that ends in a bracket, in the text around it. -/
structure Match.EndsIn (found : Match) (text : Text) (bracket : Char) (left right : Text) :
    Prop where
  whole : text = left ++ bracket :: right
  stop : found.stop = left.width + 1

/-- A match of such patterns ends in the bracket. -/
theorem Match.exists_endsIn (bracket : Char) {patterns : List Pattern} {string : String}
    (last : patterns.getLast? = some (lit string)) (single : string.toList = [bracket])
    (narrow : bracket.utf8Size = 1) (member : found ∈ (sequence patterns).allMatches text) :
    ∃ left right, found.EndsIn text bracket left right := by
  obtain ⟨left, right, captures, occurs⟩ := occurs_of_mem_allMatches member
  obtain ⟨front, body⟩ := occurs.fits.exists_append_lit last
  refine ⟨left ++ front, right, ?_, ?_⟩
  · rw [occurs.whole, body, single]
    simp
  · rw [occurs.stop_eq, body, single]
    simp [narrow, Nat.add_assoc]

namespace Match.EndsIn

variable {bracket : Char} {left right : Text}

/-- The bracket that a match ends in is one byte before its stop. -/
theorem stop_sub_one (endsIn : found.EndsIn text bracket left right) :
    found.stop - 1 = left.width := by
  rw [endsIn.stop, Nat.add_sub_cancel]

end Match.EndsIn

/-! ### Words in place -/

namespace Text

/-- The bytes from an offset on spell a word, all of them code, and no identifier byte stands
directly in front of them or behind them. -/
structure StandsAt (text word : Text) (place : Nat) : Prop where
  shows : text.Shows place word
  inCode : ∀ offset, place ≤ offset → offset < place + word.length → text.isCodeAt offset = true
  before : 0 < place → ∀ byte ∈ text.byteAt? (place - 1), isIdentifierChar byte = false
  after : ∀ byte ∈ text.byteAt? (place + word.length), isIdentifierChar byte = false

/-- An identifier character takes one byte. -/
theorem utf8Size_of_isIdentifierChar {c : Char} (part : isIdentifierChar c = true) :
    c.utf8Size = 1 := by
  have positive : 0 < c.utf8Size := c.utf8Size_pos
  by_cases wide : 1 < c.utf8Size
  · rw [isIdentifierChar_of_wide wide] at part
    cases part
  · omega

/-- Identifier characters take one byte each. -/
theorem width_of_isIdentifierChar {word : Text} (parts : ∀ c ∈ word, isIdentifierChar c = true) :
    word.width = word.length := by
  induction word with
  | nil => rfl
  | cons c rest ih =>
    obtain ⟨part, others⟩ := List.forall_mem_cons.mp parts
    rw [width_cons, utf8Size_of_isIdentifierChar part, ih others,
      List.length_cons, Nat.add_comm]

/-- Every byte of a word is code if its first one is. -/
theorem isCodeAt_of_word {left word right : Text} (parts : ∀ c ∈ word, isIdentifierChar c = true)
    (inCode : (left ++ word ++ right).layout.inCode left.width = true) {offset : Nat}
    (first : left.width ≤ offset) (last : offset < left.width + word.length) :
    (left ++ word ++ right).isCodeAt offset = true := by
  obtain ⟨index, rfl⟩ := Nat.exists_eq_add_of_le first
  have inside : index < word.length := by omega
  obtain ⟨front, c, back, rfl, rfl⟩ : ∃ front c back, word = front ++ c :: back ∧
      front.length = index :=
    ⟨word.take index, word[index], word.drop (index + 1), by simp, by simp; omega⟩
  have narrow : Text.width front = front.length :=
    width_of_isIdentifierChar fun d listed => parts d (by simp [listed])
  have same := regionAt?_of_plain (fun d listed => isPlain_of_isIdentifierChar
    (parts d (by simp at listed ⊢; grind))) inCode
  rw [isCodeAt_eq_inCode, ← narrow, ← width_append, Layout.inCode, same]
  exact inCode

/-- A word stands by itself in code exactly when its bytes do, so that the search can be stated by
bytes alone. -/
theorem wordInCode_iff_standsAt {word : Text} {start stop : Nat} (present : word ≠ [])
    (parts : ∀ c ∈ word, isIdentifierChar c = true) :
    text.WordInCode word start stop ↔
      ∃ place, start ≤ place ∧ place + word.length ≤ stop ∧ text.StandsAt word place := by
  have narrow := width_of_isIdentifierChar parts
  have ascii : ∀ c ∈ word, c.utf8Size = 1 := fun c listed =>
    utf8Size_of_isIdentifierChar (parts c listed)
  have ends (left : Text) : (left ++ word).width = left.width + word.length := by
    rw [width_append, narrow]
  constructor
  · rintro ⟨left, right, rfl, ahead, behind, inCode, before, after⟩
    refine ⟨left.width, ahead, by rwa [← ends], ?_, ?_, ?_, ?_⟩
    · rw [List.append_assoc, shows_width_iff left _ ascii]
      exact List.prefix_append word right
    · intro offset first last
      exact isCodeAt_of_word parts inCode first last
    · rw [List.append_assoc]
      exact (delimits_getLast?_iff left _).mp before
    · rw [← ends]
      exact (delimits_head?_iff (left ++ word) right).mp after
  · rintro ⟨place, ahead, behind, shows, inCode, before, after⟩
    obtain ⟨left, right, rfl, rfl⟩ : ∃ left right, text = left ++ word ++ right ∧
        left.width = place := by
      obtain ⟨c, rest, rfl⟩ := List.exists_cons_of_ne_nil present
      obtain ⟨left, others, rfl, rfl⟩ := exists_append_of_byteAt? (ascii c (.head _)) shows.1
      obtain ⟨right, whole⟩ := (shows_width_iff left _ ascii).mp shows
      exact ⟨left, right, by rw [List.append_assoc, whole], rfl⟩
    have first : (left ++ word ++ right).isCodeAt left.width = true := by
      have long : 0 < word.length := List.length_pos_iff.mpr present
      exact inCode left.width (Nat.le_refl _) (by omega)
    refine ⟨left, right, rfl, ahead, by rwa [ends], by rwa [← isCodeAt_eq_inCode], ?_, ?_⟩
    · rw [List.append_assoc] at before
      exact (delimits_getLast?_iff left _).mpr before
    · rw [← ends] at after
      exact (delimits_head?_iff (left ++ word) right).mpr after

end Text

/-! ### Functions that return nothing -/

namespace Return

/-- The body of a function has a word just when the word stands in its code. -/
theorem containsWord_body {left right : Text} (endsIn : found.EndsIn text '\x7b' left right) :
    ∃ code, codeOf text (text.layout.regionsWithin found.stop (bodyEnd text found)) = some code ∧
      (code.containsWord "return".toList = true ↔
        text.WordInCode "return".toList found.stop (bodyEnd text found)) := by
  have narrow : '\x7b'.utf8Size = 1 := rfl
  have whole : text = left ++ ['\x7b'] ++ right := by simp [endsIn.whole]
  have wide : Text.width (left ++ ['\x7b']) = found.stop := by simp [endsIn.stop, narrow]
  have opens : text.Boundary found.stop := ⟨left ++ ['\x7b'], right, whole, wide⟩
  have behind : found.stop - 1 + 1 = found.stop := by rw [endsIn.stop_sub_one, endsIn.stop]
  obtain ⟨ordered, closes⟩ := @bodyEnd_spec text (found.stop - 1) (by rwa [behind])
  have ordered' : found.stop ≤ bodyEnd text found := by
    rw [← behind]
    exact ordered
  obtain ⟨code, gathered⟩ := exists_codeOf fun region listed =>
    Text.exists_slice?_of_regionsWithin opens closes ordered' listed
  have letters : "return".toList.all isIdentifierChar = true := by decide
  refine ⟨code, gathered, Text.containsWord_codeOf_regionsWithin (by decide)
    (List.all_eq_true.mp letters) opens closes ordered' ?_ ?_ gathered⟩
  · intro front rest split stands
    obtain ⟨rfl, -⟩ := Text.append_inj_of_width (split.symm.trans whole) (stands.trans wide.symm)
    rw [List.getLast?_concat]
    rfl
  · intro front rest split stands
    rw [bodyEnd] at stands
    cases pair : text.layout.matchingClose? (found.stop - 1) with
    | none =>
      obtain rfl : rest = [] := by
        rw [pair, Option.getD_none, split, Text.width_append] at stands
        exact (Text.width_eq_zero_iff rest).mp (by omega)
      rfl
    | some closed =>
      obtain ⟨-, kind, front', rest', split', stands'⟩ := Text.exists_closer pair
      rw [pair, Option.getD_some] at stands
      obtain ⟨-, rfl⟩ :=
        Text.append_inj_of_width (split.symm.trans split') (stands.trans stands'.symm)
      cases kind <;> rfl

/-- The functions reported are those found without a `return`. -/
theorem findings?_missing (known : Text → Bool) (text : Text) :
    missing.findings? known text =
      some (((functionHead.allMatches text).filter (isReported text)).map
        (missing.finding text)) := by
  have each : ∀ found ∈ functionHead.allMatches text,
      (lacksReturn ⟨text, text.layout, known, found⟩).Decides (fun _ => false)
        (isReported text found) := by
    intro found member
    obtain ⟨left, right, captures, occurs⟩ := occurs_of_mem_allMatches member
    exact decides_lacksReturn _ occurs
  exact Rule.findings?_of_decides rfl each

/-- A function whose match starts in code, and whose name is not capitalized, is reported
exactly when no `return` stands by itself in the code of the text between its opening brace
and the closer of that brace, or the end of the text if there is none. The rule never fails. -/
theorem missing_searches_in_place (known : Text → Bool) (text : Text) (found : Match)
    (member : found ∈ functionHead.allMatches text) (starts : text.isCodeAt found.start = true)
    (small : ∀ name ∈ found.group? 1, ∀ c ∈ name.body.head?, c.isUpper = false) :
    ∃ findings opened, missing.findings? known text = some findings ∧
      opened + 1 = found.stop ∧ text.byteAt? opened = some '\x7b' ∧
      ((∃ finding ∈ findings, finding.offset = found.start) ↔
        ¬∃ place, opened < place ∧
          place + 6 ≤ (text.layout.matchingClose? opened).getD text.width ∧
          text.StandsAt "return".toList place) := by
  obtain ⟨left, right, endsIn⟩ := Match.exists_endsIn '\x7b' rfl rfl rfl member
  refine ⟨_, left.width, findings?_missing known text, endsIn.stop.symm, ?_, ?_⟩
  · rw [endsIn.whole]
    exact (Text.byteAt?_width_eq_some_iff left _ rfl).mpr rfl
  obtain ⟨code, gathered, contains⟩ := containsWord_body endsIn
  have letters : "return".toList.all isIdentifierChar = true := by decide
  rw [Text.wordInCode_iff_standsAt (by decide) (List.all_eq_true.mp letters), bodyEnd,
    endsIn.stop_sub_one, endsIn.stop] at contains
  have named : ((found.group? 1).any fun name => name.body.head?.any Char.isUpper) = false := by
    cases group : found.group? 1 with
    | none => rfl
    | some name =>
      cases first : name.body.head? with
      | none => simp [first]
      | some c => simpa [first] using small name group c first
  refine (@Rule.exists_finding_iff missing text (isReported text) found member).trans ?_
  rw [isReported, named, gathered, ← text.isCodeAt_eq_inCode, starts, Option.any_some]
  simp only [Bool.not_false, Bool.true_and, Bool.not_eq_true', ← Bool.not_eq_true, contains]
  rfl

/-- A `return` between two comments counts, though blanks take the place of the comments and it has
no neighbours of its own. -/
theorem missing_searches_in_place_around_comments :
    let text : Text := "function f() \x7b/*é*/return/**/\x7d".toList
    ∃ found ∈ functionHead.allMatches text,
      text.isCodeAt found.start = true ∧ missing.findings? (fun _ => false) text = some [] ∧
      ∃ place, 13 < place ∧ place + 6 ≤ 30 ∧ text.StandsAt "return".toList place := by
  intro text
  have present : ((functionHead.allMatches text).any fun found => found.stop == 14 &&
      text.isCodeAt found.start && (found.group? 1).all fun name =>
        name.body.head?.all fun c => !c.isUpper) = true := by decide +kernel
  obtain ⟨found, member, holds⟩ := List.any_eq_true.mp present
  simp only [Bool.and_eq_true, beq_iff_eq, Option.all_eq_true, Bool.not_eq_true'] at holds
  obtain ⟨⟨stop, starts⟩, small⟩ := holds
  have silent : ((missing.findings? (fun _ => false) text).any List.isEmpty) = true := by
    decide +kernel
  obtain ⟨findings, opened, result, opens, -, reported⟩ :=
    missing_searches_in_place (fun _ => false) text found member starts small
  obtain rfl : findings = [] := by simpa [result] using silent
  obtain rfl : opened = 13 := by omega
  have closed : (text.layout.matchingClose? 13).getD text.width = 30 := by decide +kernel
  rw [closed] at reported
  exact ⟨found, member, starts, result, by simpa using reported⟩

end Return

end ScriptCheck
