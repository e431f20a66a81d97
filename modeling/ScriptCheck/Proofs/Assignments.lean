import ScriptCheck.Proofs.Decision
import ScriptCheck.Proofs.Naming
import ScriptCheck.Proofs.Pairing
import ScriptCheck.Proofs.Remedies
import ScriptCheck.Proofs.Seams

/-!
# Assignments that count against a constant

A constant is reported when the text behind its declaration assigns its name or updates it.
The search looks for the name where a name may start, with an update sign in front of it or
behind it, or with an equals sign behind it that makes no comparison and no arrow.

Whether an assignment counts is told by one byte, the last one that the search has looked at.
An assignment is all code or all not, so any byte of it would do. But behind an equals sign
the byte is that of the next character, and a newline is code even where it ends a comment.
A comment that ends in an assignment therefore counts like the assignment itself.
-/

namespace ScriptCheck

open Pattern Phrase

namespace Reassignment

/-! ### The forms of an assignment -/

/-- The signs that update a variable. -/
def updates : List String := ["++", "--"]

/-- What may stand in front of the equals sign of an assignment. -/
def operators : List String :=
  ["", "-", "+", "*", "/", "%", "&", "|", "^", "**", "<<", ">>", ">>>", "??", "&&", "||"]

/-- The ways to assign a variable or to update it. -/
inductive Form where
  /-- A sign in front of the name. -/
  | ahead (sign : String) (listed : sign ∈ updates)
  /-- A sign behind the name. -/
  | behind (sign : String) (listed : sign ∈ updates)
  /-- An operator and an equals sign behind the name. -/
  | equals (operator : String) (listed : operator ∈ operators)

namespace Form

/-- A form as it is written, through its last sign or its equals sign. -/
def written (name gap : Text) : Form → Text
  | ahead sign _ => sign.toList ++ gap ++ name
  | behind sign _ => name ++ gap ++ sign.toList
  | equals operator _ => name ++ gap ++ (operator.toList ++ ['='])

/-- Whether a form may stand in front of a character. A name behind a sign ends at a word
edge, and an equals sign makes no comparison or arrow with what follows. -/
def mayPrecede (name : Text) (next : Option Char) : Form → Bool
  | ahead _ _ => name.getLast?.any isWordChar != next.any isWordChar
  | behind _ _ => true
  | equals _ _ => next.all (notAmong "=>")

/-- What is looked at behind a form, given the text that follows it: the character that shows
an equals sign to be an assignment. -/
def shown (rest : Text) : Form → Text
  | ahead _ _ | behind _ _ => []
  | equals _ _ => rest.take 1

/-- However an assignment is written, something is written. -/
theorem written_ne_nil {name : Text} (present : name ≠ []) (gap : Text) (form : Form) :
    form.written name gap ≠ [] := by
  cases form <;> simp [written, present]

/-- An equals sign shows with the character behind it. -/
theorem shown_cases (rest : Text) (form : Form) :
    form.shown rest = [] ∨ ∃ c more, form.shown rest = [c] ∧ rest = c :: more := by
  cases form with
  | ahead => exact .inl rfl
  | behind => exact .inl rfl
  | equals =>
    cases rest with
    | nil => exact .inl rfl
    | cons c more => exact .inr ⟨c, more, rfl, rfl⟩

end Form

/-- An update sign doubles a plus or a minus. -/
theorem fits_update {before body after : Text} {captures : List Capture} :
    update.Fits before body after captures ↔
      (∃ sign ∈ updates, body = sign.toList) ∧ captures = [] :=
  fits_litOf

/-- What may stand in front of the equals sign of a compound assignment is one of the listed
operators. One optional star makes a power of a product. -/
theorem fits_compound {before body after : Text} {captures : List Capture} :
    compound.Fits before body after captures ↔
      (∃ operator ∈ operators.tail, body = operator.toList) ∧ captures = [] := by
  simp only [compound, choice, Fits, fits_lit, Pattern.optional, operators, List.tail_cons,
    List.mem_cons, List.not_mem_nil, or_false, exists_eq_or_imp, exists_eq_left]
  constructor
  · rintro (⟨⟨c, accepted, rfl⟩, rfl⟩ | ⟨rfl, rfl⟩ | ⟨rfl, rfl⟩ |
      ⟨_, _, _, _, rfl, rfl, ⟨rfl, rfl⟩, ⟨rfl, rfl⟩ | ⟨rfl, rfl⟩⟩ |
      ⟨rfl, rfl⟩ | ⟨rfl, rfl⟩ | ⟨rfl, rfl⟩)
    · simpa [among] using accepted
    all_goals simp
  · have shift (more : Text) (listed : more = [] ∨ more = ['>']) :
        ∃ front back earlier later, ">>".toList ++ more = front ++ back ∧
          ([] : List Capture) = later ++ earlier ∧ (front = ">>".toList ∧ earlier = []) ∧
          (back = ">".toList ∧ later = [] ∨ back = [] ∧ later = []) :=
      ⟨">>".toList, more, [], [], rfl, rfl, ⟨rfl, rfl⟩, by simpa [or_comm] using listed⟩
    rintro ⟨rfl | rfl | rfl | rfl | rfl | rfl | rfl | rfl | rfl | rfl | rfl | rfl | rfl | rfl | rfl,
      rfl⟩
    case inr.inr.inr.inr.inr.inr.inr.inr.inr.inr.inl =>
      exact .inr (.inr (.inr (.inl (shift [] (.inl rfl)))))
    case inr.inr.inr.inr.inr.inr.inr.inr.inr.inr.inr.inl =>
      exact .inr (.inr (.inr (.inl (shift ['>'] (.inr rfl)))))
    all_goals simp [among]

/-- An assignment sign is an equals sign behind one of the listed operators, the empty one among
them, which is the plain assignment. -/
theorem fits_assignment {before body after : Text} {captures : List Capture} :
    assignment.Fits before body after captures ↔
      (∃ operator ∈ operators, body = operator.toList ++ ['=']) ∧ captures = [] := by
  constructor
  · rintro ⟨front, back, earlier, later, rfl, rfl, first, second⟩
    obtain ⟨rfl, rfl⟩ := fits_lit.mp second
    rcases first with first | ⟨rfl, rfl⟩
    · obtain ⟨⟨operator, listed, rfl⟩, rfl⟩ := fits_compound.mp first
      exact ⟨⟨operator, List.mem_of_mem_tail listed, rfl⟩, rfl⟩
    · exact ⟨⟨"", by decide, rfl⟩, rfl⟩
  · rintro ⟨⟨operator, listed, rfl⟩, rfl⟩
    refine ⟨operator.toList, "=".toList, [], [], rfl, rfl, ?_, fits_lit.mpr ⟨rfl, rfl⟩⟩
    rcases List.mem_cons.mp listed with rfl | compound
    · exact .inr ⟨rfl, rfl⟩
    · exact .inl (fits_compound.mpr ⟨⟨operator, compound, rfl⟩, rfl⟩)

section Forms

variable {name before body after : Text} {captures : List Capture} (present : name ≠ [])

include present in
/-- An update in front of a name: the signs, blanks on the line, and the name up to a word edge. The
name is not empty, so its last character decides about that edge. -/
theorem fits_ahead :
    (sequence [update, gap, word name, edge]).Fits before body after captures ↔
      (∃ sign ∈ updates, ∃ blanks, (∀ c ∈ blanks, among " \t" c = true) ∧
        (name.getLast?.any isWordChar != after.head?.any isWordChar) = true ∧
        body = sign.toList ++ blanks ++ name) ∧ captures = [] := by
  have ends (earlier : Text) : (name.reverse ++ earlier).head? = name.getLast? := by
    rw [List.head?_append, List.head?_reverse, Option.or_of_isSome (by simpa using present)]
  constructor
  · intro fits
    obtain ⟨_, _, _, _, rfl, rfl, signed, further⟩ := fits_sequence_cons.mp fits
    obtain ⟨⟨sign, listed, rfl⟩, rfl⟩ := fits_update.mp signed
    obtain ⟨blanks, back, rfl, blank, further⟩ := further.pass_many
    obtain ⟨edged, rfl, rfl⟩ := fits_word_edge.mp further
    rw [ends] at edged
    exact ⟨⟨sign, listed, blanks, blank, by simpa using edged, by simp⟩, rfl⟩
  · rintro ⟨⟨sign, listed, blanks, blank, edged, rfl⟩, rfl⟩
    rw [List.append_assoc]
    refine .cons (fits_update.mpr ⟨⟨sign, listed, rfl⟩, rfl⟩)
      (.cons (fits_many.mpr ⟨blank, rfl⟩) (fits_word_edge.mpr ⟨?_, rfl, rfl⟩))
    rw [ends]
    simpa using edged

/-- Behind a name, an update sign may stand behind blanks. -/
theorem fits_behind :
    (seq gap update).Fits before body after captures ↔
      (∃ sign ∈ updates, ∃ blanks, (∀ c ∈ blanks, among " \t" c = true) ∧
        body = blanks ++ sign.toList) ∧ captures = [] := by
  constructor
  · rintro ⟨blanks, _, _, _, rfl, rfl, ⟨blank, rfl⟩, signed⟩
    obtain ⟨⟨sign, listed, rfl⟩, rfl⟩ := fits_update.mp signed
    exact ⟨⟨sign, listed, blanks, blank, rfl⟩, rfl⟩
  · rintro ⟨⟨sign, listed, blanks, blank, rfl⟩, rfl⟩
    exact ⟨blanks, sign.toList, [], [], rfl, rfl, ⟨blank, rfl⟩,
      fits_update.mpr ⟨⟨sign, listed, rfl⟩, rfl⟩⟩

/-- An assignment behind a name: blanks, the sign, and the character behind it. That character must
not make the sign a comparison or an arrow, and at the end of the text there is none. -/
theorem fits_equals :
    (sequence [gap, assignment, either (char (notAmong "=>")) (anchor .textEnd)]).Fits
        before body after captures ↔
      (∃ operator ∈ operators, ∃ blanks shown, (∀ c ∈ blanks, among " \t" c = true) ∧
        (shown ++ after).head?.all (notAmong "=>") = true ∧ (shown ++ after).take 1 = shown ∧
        body = blanks ++ (operator.toList ++ ['=']) ++ shown) ∧ captures = [] := by
  constructor
  · intro fits
    obtain ⟨blanks, back, rfl, blank, further⟩ := fits.pass_many
    obtain ⟨_, shown, _, _, rfl, rfl, assigned, last⟩ := fits_sequence_cons.mp further
    obtain ⟨⟨operator, listed, rfl⟩, rfl⟩ := fits_assignment.mp assigned
    rcases last with ⟨⟨c, other, rfl⟩, rfl⟩ | ⟨ended, rfl, rfl⟩
    · exact ⟨⟨operator, listed, blanks, [c], blank, by simpa using other, by simp, by simp⟩, rfl⟩
    · obtain rfl : after = [] := List.isEmpty_iff.mp ended
      exact ⟨⟨operator, listed, blanks, [], blank, rfl, rfl, by simp⟩, rfl⟩
  · rintro ⟨⟨operator, listed, blanks, shown, blank, other, taken, rfl⟩, rfl⟩
    rw [List.append_assoc]
    refine .cons (fits_many.mpr ⟨blank, rfl⟩)
      (.cons (fits_assignment.mpr ⟨⟨operator, listed, rfl⟩, rfl⟩) ?_)
    cases shown with
    | nil =>
      cases after with
      | nil => exact .inr ⟨rfl, rfl, rfl⟩
      | cons c after => simp at taken
    | cons c shown =>
      obtain rfl : shown = [] := by simpa using taken
      exact .inl ⟨⟨c, by simpa using other, rfl⟩, rfl⟩

include present in
/-- The pattern of an assignment fits the forms as they are written, each behind a place where
a name may start and with the character that shows an equals sign to be an assignment. -/
theorem fits_assignmentTo :
    (assignmentTo name).Fits before body after captures ↔
      ∃ lead form gap shown, Clears before lead ∧ (∀ c ∈ gap, among " \t" c = true) ∧
        Form.mayPrecede name (shown ++ after).head? form = true ∧
        form.shown (shown ++ after) = shown ∧
        body = lead ++ (form.written name gap ++ shown) ∧
        captures = [⟨1, lead.reverse ++ before, form.written name gap ++ shown⟩] := by
  constructor
  · rintro ⟨lead, target, earlier, later, rfl, rfl, first, inside, rfl, second⟩
    obtain ⟨clears, rfl⟩ := fits_freshName.mp first
    rcases second with ahead | ⟨_, _, _, _, rfl, rfl, named, behind | equals⟩
    · obtain ⟨⟨sign, listed, gap, blank, edged, rfl⟩, rfl⟩ := (fits_ahead present).mp ahead
      exact ⟨lead, .ahead sign listed, gap, [], clears, blank, edged, rfl, by simp [Form.written],
        by simp [Form.written]⟩
    · obtain ⟨rfl, rfl⟩ := fits_word.mp named
      obtain ⟨⟨sign, listed, gap, blank, rfl⟩, rfl⟩ := fits_behind.mp behind
      exact ⟨lead, .behind sign listed, gap, [], clears, blank, rfl, rfl, by simp [Form.written],
        by simp [Form.written]⟩
    · obtain ⟨rfl, rfl⟩ := fits_word.mp named
      obtain ⟨⟨operator, listed, gap, shown, blank, other, taken, rfl⟩, rfl⟩ :=
        fits_equals.mp equals
      exact ⟨lead, .equals operator listed, gap, shown, clears, blank, other, taken,
        by simp [Form.written], by simp [Form.written]⟩
  · rintro ⟨lead, form, gap, shown, clears, blank, precedes, taken, rfl, rfl⟩
    refine ⟨lead, _, [], _, rfl, (List.append_nil _).symm, fits_freshName.mpr ⟨clears, rfl⟩, [],
      rfl, ?_⟩
    cases form with
    | ahead sign listed =>
      obtain rfl : shown = [] := taken.symm
      rw [List.append_nil]
      exact .inl ((fits_ahead present).mpr ⟨⟨sign, listed, gap, blank, precedes, rfl⟩, rfl⟩)
    | behind sign listed =>
      obtain rfl : shown = [] := taken.symm
      exact .inr ⟨name, gap ++ sign.toList, [], [], by simp [Form.written], rfl,
        fits_word.mpr ⟨rfl, rfl⟩, .inl (fits_behind.mpr ⟨⟨sign, listed, gap, blank, rfl⟩, rfl⟩)⟩
    | equals operator listed =>
      exact .inr ⟨name, gap ++ (operator.toList ++ ['=']) ++ shown, [], [],
        by simp [Form.written], rfl, fits_word.mpr ⟨rfl, rfl⟩,
        .inr (fits_equals.mpr
          ⟨⟨operator, listed, gap, shown, blank, precedes, taken, rfl⟩, rfl⟩)⟩

end Forms

end Reassignment

/-! ### Code over an assignment -/

namespace Mode

variable {mode : Mode} {flag : Bool} {rest : Text}

/-- Two stretches in a row are marked when each of them is. -/
theorem marked_append {front back : Text} :
    Marked flag mode (front ++ back) rest ↔
      Marked flag mode front (back ++ rest) ∧ Marked flag (mode.after front) back rest := by
  induction front generalizing mode with
  | nil => simp [Marked]
  | cons c front ih =>
    simp only [List.cons_append, Marked, after_cons, ih, List.append_assoc,
      and_assoc]

/-- Plain characters are all code or all not. -/
theorem marked_of_isPlain {body : Text} (proper : mode.Proper)
    (plain : ∀ c ∈ body, isPlain c = true) : Marked mode.inCode mode body rest := by
  induction body generalizing mode with
  | nil => trivial
  | cons c body ih =>
    obtain ⟨first, others⟩ := List.forall_mem_cons.mp plain
    refine ⟨showsCode_of_isPlain first mode _, ?_⟩
    have further := ih (proper.step c) others
    rw [step_of_isPlain first proper] at further ⊢
    rwa [inCode_settled] at further

/-- Outside code, only a newline still shows as code. -/
theorem showsCode_of_not_inCode {c : Char} {next : Option Char} (outside : mode.inCode = false)
    (shown : mode.showsCode c next = true) : c = '\n' := by
  cases mode <;> simp_all [inCode, showsCode]

end Mode

namespace Reassignment

open Mode

/-- An operator and its equals sign are all code or all not, and leave the mode as it is: they
neither open nor close a comment. -/
theorem marked_operator {mode : Mode} {operator : String} (proper : mode.Proper)
    (settled : mode.settled = mode) (listed : operator ∈ operators) (rest : Text) :
    Marked mode.inCode mode (operator.toList ++ ['=']) rest ∧
      mode.after (operator.toList ++ ['=']) = mode := by
  have kinds : (operators.all fun operator => operator.toList.all isPlain ||
      ["*", "/", "**"].contains operator) = true := by decide
  have kind := List.all_eq_true.mp kinds operator listed
  rw [Bool.or_eq_true, List.all_eq_true] at kind
  rcases kind with plain | special
  · have plain' : ∀ c ∈ operator.toList ++ ['='], isPlain c = true := by
      intro c listed
      rcases List.mem_append.mp listed with listed | listed
      · exact plain c listed
      · obtain rfl := List.mem_singleton.mp listed
        decide
    refine ⟨marked_of_isPlain proper plain', ?_⟩
    rw [after_of_isPlain proper (by simp) plain', settled]
  · simp only [List.contains_eq_mem, List.mem_cons, List.not_mem_nil, or_false,
      decide_eq_true_eq] at special
    cases mode with
    | slash => cases settled
    | star => cases settled
    | escaped quote => cases settled
    | quoted quote =>
      have other (c : Char) (plain : isQuote c = false) : c ≠ quote := by
        rintro rfl
        rw [show isQuote c = true from proper] at plain
        cases plain
      rcases special with rfl | rfl | rfl <;>
        simp [Marked, showsCode, step, inCode, other '*' rfl, other '/' rfl, other '=' rfl]
    | _ =>
      rcases special with rfl | rfl | rfl <;>
        simp [Marked, showsCode, step, inCode, isQuote, backquote]

/-- The signs of an update are plain. -/
theorem isPlain_of_updates {sign : String} (listed : sign ∈ updates) :
    ∀ c ∈ sign.toList, isPlain c = true := by
  have plain : (updates.all fun sign => sign.toList.all isPlain) = true := by decide
  exact List.all_eq_true.mp (List.all_eq_true.mp plain sign listed)

/-- The blanks of a line are plain. -/
theorem isPlain_of_among {gap : Text} (blank : ∀ c ∈ gap, among " \t" c = true) :
    ∀ c ∈ gap, isPlain c = true := by
  intro c listed
  have either : c = ' ' ∨ c = '\t' := by simpa [among] using blank c listed
  rcases either with rfl | rfl <;> decide

/-- A form is all code or all not, and what is open in front of it is open behind it. -/
theorem marked_written {mode : Mode} {name gap : Text} (proper : mode.Proper)
    (named : isName name = true) (blank : ∀ c ∈ gap, among " \t" c = true) (form : Form)
    (rest : Text) :
    Marked mode.inCode mode (form.written name gap) rest ∧
      mode.after (form.written name gap) = mode.settled := by
  have present := ne_nil_of_isName named
  have plainName : ∀ c ∈ name, isPlain c = true := fun c listed =>
    isPlain_of_continuesName (continuesName_of_isName named c listed)
  have plainGap := isPlain_of_among blank
  cases form with
  | ahead sign listed =>
    have plain : ∀ c ∈ Form.written name gap (.ahead sign listed), isPlain c = true := by
      simpa [Form.written, or_imp, forall_and] using
        ⟨isPlain_of_updates listed, plainGap, plainName⟩
    exact ⟨marked_of_isPlain proper plain,
      after_of_isPlain proper (by simp [Form.written, present]) plain⟩
  | behind sign listed =>
    have plain : ∀ c ∈ Form.written name gap (.behind sign listed), isPlain c = true := by
      simpa [Form.written, or_imp, forall_and] using
        ⟨plainName, plainGap, isPlain_of_updates listed⟩
    exact ⟨marked_of_isPlain proper plain,
      after_of_isPlain proper (by simp [Form.written, present]) plain⟩
  | equals operator listed =>
    have plain : ∀ c ∈ name ++ gap, isPlain c = true := by
      simpa [or_imp, forall_and] using ⟨plainName, plainGap⟩
    have after : mode.after (name ++ gap) = mode.settled :=
      after_of_isPlain proper (by simp [present]) plain
    have proper' : mode.settled.Proper := after ▸ proper.after _
    obtain ⟨marked, same⟩ := marked_operator proper' (settled_settled mode) listed rest
    rw [inCode_settled] at marked
    constructor
    · exact marked_append.mpr ⟨marked_of_isPlain proper plain, by rwa [after]⟩
    · rw [Form.written, after_append, after, same]

end Reassignment

namespace Text

/-- Where characters are all code or all not. -/
theorem isCodeAt_of_marked {front body rest : Text} {flag : Bool}
    (marked : Mode.Marked flag (Mode.code.after front) body rest) {offset : Nat}
    (first : front.width ≤ offset) (last : offset < (front ++ body).width) :
    (front ++ body ++ rest).isCodeAt offset = flag := by
  obtain ⟨place, rfl⟩ := Nat.exists_eq_add_of_le first
  have within : place < body.width := by
    rw [width_append] at last
    omega
  obtain ⟨left, c, right, byte, rfl, inside, rfl⟩ := exists_char_of_lt within
  have split : front ++ (left ++ c :: right) ++ rest = (front ++ left) ++ c :: (right ++ rest) := by
    simp
  rw [isCodeAt_eq_inCode, ← Nat.add_assoc, ← width_append, split, inCode_layout_byte _ _ _ inside,
    Mode.after_append]
  exact Mode.showsCode_of_marked marked

end Text

namespace Reassignment

/-- An assignment to a name or an update of it, as it stands in a text. -/
structure Reassigns (text name front : Text) (form : Form) (gap after : Text) : Prop where
  whole : text = front ++ form.written name gap ++ after
  /-- The name is no part of a longer one and no member of an object. -/
  clear : ∀ c ∈ front.getLast?, continuesName c = false ∧ c ≠ '.'
  blank : ∀ c ∈ gap, among " \t" c = true
  ends : Form.mayPrecede name after.head? form = true

/-- All bytes of a span are code, or all are not. -/
def Uniform (text : Text) (inCode : Bool) (start stop : Nat) : Prop :=
  ∀ offset, start ≤ offset → offset < stop → text.isCodeAt offset = inCode

section Reassigns

variable {text name front gap after : Text} {form : Form}
  (reassigns : Reassigns text name front form gap after) (named : isName name = true)

include reassigns named

/-- An assignment is all code or all not. -/
theorem Reassigns.uniform :
    Uniform text (Mode.code.after front).inCode front.width
      (front ++ form.written name gap).width := by
  intro offset first last
  rw [reassigns.whole]
  exact Text.isCodeAt_of_marked
    (marked_written (Mode.proper_code_after front) named reassigns.blank form after).1 first last

/-- The last byte that is looked at is code just when the form is, or when the form ends its
line inside a comment or literal and the newline behind it ends that. -/
theorem Reassigns.isCodeAt_last_iff :
    text.isCodeAt (front.width + (form.written name gap ++ form.shown after).width - 1) = true ↔
      (∀ c ∈ form.shown after, text.isCodeAt (front ++ form.written name gap).width = true) ∧
        (Uniform text true front.width (front ++ form.written name gap).width ∨
          form.shown after = ['\n'] ∧
            Uniform text false front.width (front ++ form.written name gap).width) := by
  have even := reassigns.uniform named
  have wide : 0 < (form.written name gap).width := Nat.pos_of_ne_zero <|
    mt (Text.width_eq_zero_iff _).mp (form.written_ne_nil (ne_nil_of_isName named) gap)
  have total := Text.width_append front (form.written name gap)
  have uniform (flag : Bool) : Uniform text flag front.width
      (front ++ form.written name gap).width ↔ (Mode.code.after front).inCode = flag := by
    constructor
    · intro all
      rw [← even front.width (Nat.le_refl _) (by omega), all front.width (Nat.le_refl _) (by omega)]
    · rintro rfl
      exact even
  rw [uniform, uniform]
  rcases form.shown_cases after with none | ⟨c, more, one, rfl⟩
  · rw [none, List.append_nil, even _ (by omega) (by omega)]
    simp
  · have split : text = (front ++ form.written name gap) ++ c :: more := reassigns.whole
    have positive : 0 < c.utf8Size := c.utf8Size_pos
    have byte (index : Nat) (inside : index < c.utf8Size) :
        text.isCodeAt ((front ++ form.written name gap).width + index) =
          (Mode.code.after front).settled.showsCode c more.head? := by
      rw [Text.isCodeAt_eq_inCode, split, Text.inCode_layout_byte _ _ _ inside, Mode.after_append,
        (marked_written (Mode.proper_code_after front) named reassigns.blank form []).2]
    have last : front.width + (form.written name gap ++ form.shown (c :: more)).width - 1 =
        (front ++ form.written name gap).width + (c.utf8Size - 1) := by
      rw [one, Text.width_append, Text.width_append]
      simp only [Text.width_cons, Text.width_nil]
      omega
    rw [last, byte _ (by omega), one, ← Nat.add_zero (Text.width _), byte 0 positive]
    simp only [List.mem_singleton, forall_eq, List.cons.injEq, and_true]
    constructor
    · intro shows
      refine ⟨shows, ?_⟩
      cases inside : (Mode.code.after front).inCode with
      | true => exact .inl rfl
      | false =>
        refine .inr ⟨?_, rfl⟩
        exact Mode.showsCode_of_not_inCode (by rwa [Mode.inCode_settled]) shows
    · exact And.left

end Reassigns

/-! ### Assignments that count -/

/-- A text ends, blanks aside, in a keyword that declares a variable. -/
def Declares (before : Text) : Prop :=
  ∃ keyword ∈ ["let", "var", "const"], ∃ front blanks,
    before = front ++ keyword.toList ++ blanks ∧ (∀ c ∈ blanks, isBlank c = true) ∧
      ∀ c ∈ front.getLast?, isIdentifierChar c = false

/-- A declaration ends in front of a place, as it is computed, exactly if one of its keywords stands
there with blanks behind it and no word character in front. -/
theorem declares_iff (before : Text) : declares before = true ↔ Declares before := by
  simp only [declares, List.any_eq_true, Bool.and_eq_true, Text.endsWith,
    List.isSuffixOf_iff_suffix, Text.delimits, Bool.not_eq_true', Option.any_eq_false]
  constructor
  · rintro ⟨keyword, listed, ⟨front, whole⟩, clear⟩
    obtain ⟨blanks, split, blank⟩ := Text.exists_blanks_of_trimEnd before
    refine ⟨keyword, listed, front, blanks, by rw [whole, ← split], blank, ?_⟩
    simpa [← whole] using clear
  · rintro ⟨keyword, listed, front, blanks, rfl, blank, clear⟩
    have trimmed : Text.trimEnd (front ++ keyword.toList ++ blanks) = front ++ keyword.toList := by
      simp only [List.mem_cons, List.not_mem_nil, or_false] at listed
      rcases listed with rfl | rfl | rfl <;>
        exact Text.trimEnd_append blank (by simp +decide [List.getLast?_append]) (by simp)
    refine ⟨keyword, listed, ⟨front, by rw [trimmed]⟩, ?_⟩
    rw [trimmed]
    simpa using clear

/-- An assignment that counts. It declares no variable, and the character behind an equals
sign is code. The assignment is code as well, or it ends a line that is in no part code. -/
structure Counts (text name front : Text) (form : Form) (gap after : Text) : Prop
    extends Reassigns text name front form gap after where
  fresh : ¬Declares front
  shown : ∀ c ∈ form.shown after, text.isCodeAt (front ++ form.written name gap).width = true
  inCode : Uniform text true front.width (front ++ form.written name gap).width ∨
    form.shown after = ['\n'] ∧
      Uniform text false front.width (front ++ form.written name gap).width

/-- What a declaration of a constant looks like: the keyword at a word edge, blanks, a name, more
blanks and an equals sign. The name is the one group. -/
theorem fits_declaration {before body after : Text} {captures : List Capture} :
    declaration.Fits before body after captures ↔
      before.head?.any isWordChar = false ∧ ∃ blanks name gap,
        (blanks ≠ [] ∧ ∀ c ∈ blanks, among " \t" c = true) ∧ isName name = true ∧
        (∀ c ∈ gap, among " \t" c = true) ∧
        body = "const".toList ++ (blanks ++ (name ++ (gap ++ ['=']))) ∧
        captures = [⟨1, ("const".toList ++ blanks).reverse ++ before, name⟩] := by
  have letter : isWordChar 'c' = true := by decide
  constructor
  · intro fits
    obtain ⟨edge, fits₁⟩ := fits.pass_edge
    obtain ⟨_, rfl, fits₂⟩ := fits₁.pass_lit
    obtain ⟨first, blanks, _, rfl, blank, fits₃⟩ := fits₂.pass_many1
    obtain ⟨name, _, _, _, rfl, rfl, named, fits₄⟩ := fits₃.pass_group
    obtain ⟨gap, _, rfl, blank', fits₅⟩ := fits₄.pass_many
    obtain ⟨_, rfl, fits₆⟩ := fits₅.pass_lit
    obtain ⟨rfl, rfl⟩ := fits_sequence_nil.mp fits₆
    obtain ⟨isNamed, rfl⟩ := fits_name.mp named
    exact ⟨by simpa [letter] using edge, first :: blanks, name, gap, ⟨by simp, blank⟩, isNamed,
      blank', by simp, by simp⟩
  · rintro ⟨edge, blanks, name, gap, blank, named, blank', rfl, rfl⟩
    have edged : before.head?.any isWordChar ≠ (some 'c').any isWordChar := by simp [edge, letter]
    refine .cons_edge edged (.cons (fits_lit.mpr ⟨rfl, rfl⟩)
      (.cons (fits_many1.mpr ⟨blank.1, blank.2, rfl⟩) ?_))
    refine fits_sequence_cons.mpr ⟨name, gap ++ ['='], [⟨1, _, name⟩], [], rfl, by simp,
      ⟨[], rfl, fits_name.mpr ⟨named, rfl⟩⟩, ?_⟩
    exact .cons (fits_many.mpr ⟨blank', rfl⟩) (fits_lit.mpr ⟨rfl, rfl⟩)

section Scan

variable {text name front rest : Text} {assigned : Match} (whole : text = front ++ rest)
  (ends : front.getLast? = some '=') (named : isName name = true)
  (member : assigned ∈ (assignmentTo name).allMatches rest)

include whole ends named member

/-- What the search behind a declaration finds is an assignment in the text. Offsets within the rest
are moved on by the width of what stands in front. -/
theorem exists_reassigns :
    ∃ target form gap after, assigned.group? 1 = some target ∧
      target.body = form.written name gap ++ form.shown after ∧
      Reassigns text name (front ++ target.start.before.reverse) form gap after := by
  obtain ⟨left, right, captures, occurs⟩ := occurs_of_mem_allMatches member
  obtain ⟨lead, form, gap, shown, clears, blank, precedes, taken, body, rfl⟩ :=
    (fits_assignmentTo (ne_nil_of_isName named)).mp occurs.fits
  have counted : 1 ≤ (assignmentTo name).groupCount := by
    simp only [assignmentTo, groupCount]
    omega
  have group := occurs.group 1 Nat.one_pos counted
  rw [List.find?_cons_of_pos (by simp)] at group
  obtain ⟨target, group, captured⟩ := Option.map_eq_some_iff.mp group
  simp only [Piece.capture, Capture.mk.injEq, true_and] at captured
  have before : target.start.before.reverse = left ++ lead := by simp [captured.1]
  refine ⟨target, form, gap, shown ++ right, group, by rw [captured.2, taken], ?_, ?_, blank,
    precedes⟩
  · rw [whole, occurs.whole, body, before]
    simp
  · rw [before]
    rcases clears with ⟨rfl, start⟩ | ⟨c, clear, rfl⟩
    · obtain rfl : left = [] := by simpa using start
      simpa [ends] using by decide
    · simpa [← List.append_assoc] using clear

/-- An assignment that was found counts by its last byte, which has to be code, and by what stands
in front of it, which must not declare the name anew. -/
theorem assigns_iff :
    assigns text front assigned = true ↔
      ∃ target place form gap after, assigned.group? 1 = some target ∧
        front.width + target.start.offset = place.width ∧
        target.body = form.written name gap ++ form.shown after ∧
        Counts text name place form gap after := by
  obtain ⟨target, form, gap, after, group, body, reassigns⟩ :=
    exists_reassigns whole ends named member
  have within := within_of_mem_allMatches member group
  have place : (front ++ target.start.before.reverse).width =
      front.width + target.start.offset := by
    rw [Text.width_append, Text.width_reverse, target.start.placed]
  have last : front.width + target.stop.offset - 1 =
      front.width + target.start.offset + target.body.width - 1 := by
    rw [within.spans.offset_eq, Nat.add_assoc]
  rw [assigns, group, Option.any_some, last, Bool.and_eq_true, Bool.not_eq_true',
    ← Bool.not_eq_true, declares_iff, ← Text.isCodeAt_eq_inCode]
  constructor
  · rintro ⟨fresh, inCode⟩
    rw [← place, body, reassigns.isCodeAt_last_iff named] at inCode
    exact ⟨target, _, form, gap, after, rfl, place.symm, body, reassigns, fresh, inCode.1,
      inCode.2⟩
  · rintro ⟨_, front', form', gap', after', ⟨⟩, place', body', counts⟩
    have split : front ++ target.start.before.reverse ++ (form.written name gap ++ after) =
        front' ++ (form'.written name gap' ++ after') := by
      rw [← List.append_assoc, ← reassigns.whole, ← List.append_assoc, ← counts.whole]
    obtain ⟨same, -⟩ := Text.append_inj_of_width split (place.trans place')
    rw [same, place', body', counts.isCodeAt_last_iff named]
    exact ⟨counts.fresh, counts.shown, counts.inCode⟩

end Scan

/-- The constants reported are those that the rest assigns. -/
theorem findings?_constant [Engine] (known : Text → Bool) (text : Text) :
    constant.findings? known text =
      some (((declaration.allMatches text).filter (isReported text)).map
        (constant.finding text)) := by
  have each : ∀ found ∈ declaration.allMatches text,
      (isReassigned ⟨text, text.layout, known, found⟩).Decides (fun _ => false)
        (isReported text found) := by
    intro found member
    obtain ⟨left, right, captures, occurs⟩ := occurs_of_mem_allMatches member
    exact decides_isReassigned _ occurs
  exact Rule.findings?_of_decides rfl each

/-- The search behind a declaration finds an assignment that counts. -/
def CountsBehind (text name : Text) (found : Match) : Prop :=
  ∃ assigned ∈ (assignmentTo name).allMatches found.whole.stop.after,
    ∃ target front form gap after, assigned.group? 1 = some target ∧
      found.stop + target.start.offset = front.width ∧
      target.body = form.written name gap ++ form.shown after ∧
      Counts text name front form gap after

/-- A declared constant is reported exactly if its keyword is code, the engine takes the pattern for
its name, and an assignment that counts stands behind it. -/
theorem isReported_iff [Engine] {text : Text} {found : Match}
    (member : found ∈ declaration.allMatches text) :
    ∃ name, Block.groupText? found.texts 1 = some name ∧
      (isReported text found = true ↔
        text.isCodeAt found.start = true ∧ Engine.takes (assignmentTo name) = true ∧
          CountsBehind text name found) := by
  obtain ⟨left, right, captures, occurs⟩ := occurs_of_mem_allMatches member
  obtain ⟨-, blanks, name, gap, -, named, -, body, rfl⟩ := fits_declaration.mp occurs.fits
  have counted : 1 ≤ declaration.groupCount := by decide
  obtain ⟨declared, group, same⟩ : ∃ piece, found.group? 1 = some piece ∧ piece.body = name :=
    Block.group?_of_occurs occurs Nat.one_pos counted (by simp [captured])
  have behind : found.whole.stop.before.reverse = left ++ found.body := by
    rw [occurs.spans.behind, occurs.before]
    simp
  have stop : found.stop = (left ++ found.body).width := by rw [occurs.stop_eq, Text.width_append]
  have ends : (left ++ found.body).getLast? = some '=' :=
    List.getLast?_eq_some_iff.mpr
      ⟨left ++ ("const".toList ++ (blanks ++ (name ++ gap))), by simp [body]⟩
  refine ⟨name, by rw [Block.groupText?_texts found Nat.one_pos, group, Option.map_some, same], ?_⟩
  rw [isReported, group, Option.any_some, same, Bool.and_eq_true, Bool.and_eq_true,
    ← Text.isCodeAt_eq_inCode, List.any_eq_true, behind, CountsBehind, occurs.after, stop,
    and_assoc]
  refine and_congr_right fun _ => and_congr_right fun _ => exists_congr fun assigned =>
    and_congr_right fun listed => ?_
  exact assigns_iff occurs.whole ends named listed

/-- A constant is reported when its declaration starts in code, the engine takes the pattern
for assignments to its name, and an assignment that counts is found behind the equals sign of
the declaration. The rule never fails. -/
theorem constant_reports_counted [Engine] (known : Text → Bool) (text : Text) :
    ∃ findings, constant.findings? known text = some findings ∧
      (∀ finding ∈ findings, ∃ name front form gap after,
        Block.groupText? finding.groups 1 = some name ∧ finding.stop ≤ Text.width front ∧
        Counts text name front form gap after) ∧
      ∀ found ∈ declaration.allMatches text, ∃ name, Block.groupText? found.texts 1 = some name ∧
        ((∃ finding ∈ findings, finding.offset = found.start) ↔
          text.isCodeAt found.start = true ∧ Engine.takes (assignmentTo name) = true ∧
            CountsBehind text name found) := by
  refine ⟨_, findings?_constant known text, ?_, ?_⟩
  · intro finding listed
    obtain ⟨found, listed', rfl⟩ := List.mem_map.mp listed
    obtain ⟨member, reported⟩ := List.mem_filter.mp listed'
    obtain ⟨name, group, holds⟩ := isReported_iff member
    obtain ⟨-, -, assigned, -, target, front, form, gap, after, -, place, -, counts⟩ :=
      holds.mp reported
    obtain ⟨left, right, captures, occurs⟩ := occurs_of_mem_allMatches member
    refine ⟨name, front, form, gap, after, group, ?_, counts⟩
    have stop : (constant.finding text found).stop = found.stop := by
      rw [occurs.stop_eq, ← occurs.start_eq, ← occurs.width_eq]
      rfl
    omega
  · intro found member
    obtain ⟨name, group, holds⟩ := isReported_iff member
    have reported := @Rule.exists_finding_iff constant text (isReported text) found member
    exact ⟨name, group, reported.trans holds⟩

/-- A comment that ends in an equals sign counts as an assignment, though no byte of the assignment
is code: the one byte asked about is the newline behind it. -/
theorem constant_reported_for_comment :
    let _ : Engine := .unlimited
    let text : Text := "const x = 1;\n// x =\n".toList
    (constant.findings? (fun _ => false) text).map (List.map Finding.stop) = some [9] ∧
      ∀ front form gap after, 9 ≤ front.width → Reassigns text ['x'] front form gap after →
        ¬Uniform text true front.width (front ++ form.written ['x'] gap).width := by
  refine ⟨by decide +kernel, ?_⟩
  intro front form gap after behind reassigns uniform
  obtain ⟨ahead, rest, split⟩ : ∃ ahead rest, form.written ['x'] gap = ahead ++ 'x' :: rest := by
    cases form with
    | ahead sign listed => exact ⟨sign.toList ++ gap, [], by simp [Form.written]⟩
    | behind sign listed => exact ⟨[], gap ++ sign.toList, by simp [Form.written]⟩
    | equals operator listed =>
      exact ⟨[], gap ++ (operator.toList ++ ['=']), by simp [Form.written]⟩
  have whole := reassigns.whole
  rw [split] at whole uniform
  set place := (front ++ ahead).width with stands
  have total := Text.width_append front ahead
  have wide : (front ++ (ahead ++ 'x' :: rest)).width = place + (1 + Text.width rest) := by
    rw [← List.append_assoc, Text.width_append]
    rfl
  have inCode := uniform place (by omega) (by omega)
  have byte : Text.byteAt? (front ++ (ahead ++ 'x' :: rest) ++ after) place = some 'x' := by
    have regroup : front ++ (ahead ++ 'x' :: rest) ++ after =
        (front ++ ahead) ++ 'x' :: (rest ++ after) := by simp
    rw [regroup]
    exact (Text.byteAt?_width_eq_some_iff _ _ rfl).mpr rfl
  rw [← whole] at byte
  have short : place < 20 := Text.lt_width_of_byteAt? byte
  have silent : ∀ place < 20, 9 ≤ place →
      Text.byteAt? "const x = 1;\n// x =\n".toList place = some 'x' →
      Text.isCodeAt "const x = 1;\n// x =\n".toList place = false := by decide +kernel
  rw [silent place short (by omega) byte] at inCode
  cases inCode

end Reassignment

end ScriptCheck
