import ScriptCheck.Proofs.ConsoleCall
import ScriptCheck.Rule.Block
import ScriptCheck.Rule.Reassignment
import ScriptCheck.Rule.Spelling

/-!
# What is still to mend on a line

A line weighs the more, the more there is to mend on it: words that a remedy replaces,
parentheses left open in code, a body without braces, a missing semicolon. No remedy
takes from one of these without giving to another. A closed call may be missing a
semicolon that the open one was not, and a wrapped body ends the line in a brace. So the
four count for more in this order: words and parentheses, then the brace at the end of
the line, then its semicolon.

The weight of a line depends on the mode at its start, since parentheses in comments and
literals do not count. It says nothing about lines that follow.
-/

namespace ScriptCheck.Line

open Phrase Delimiter

/-- What holds of the listed characters holds of one among them. -/
theorem of_among {chars : String} {c : Char} (property : Char → Bool) {flag : Bool}
    (listed : among chars c = true) (each : chars.toList.all (property · == flag) = true) :
    property c = flag :=
  beq_iff_eq.mp (List.all_eq_true.mp each c (List.elem_iff.mp listed))

/-- The blanks within a line are blank and plain, and no newline. -/
theorem of_blank {c : Char} (blank : among " \t\r" c = true) :
    isBlank c = true ∧ Mode.isPlain c = true ∧ c ≠ '\n' :=
  ⟨of_among isBlank blank (by decide), of_among Mode.isPlain blank (by decide),
    bne_iff_ne.mp (of_among (· != '\n') blank (by decide))⟩

/-! ### Words to replace -/

/-- The words that remedies replace. -/
def faultyWords : List String :=
  ["fucntion", "funtion", "functoin", "docuemnt", "documnet", "getElementByID", "const"]

/-- One for a word to replace, none for any other. -/
def faultOf (word : Text) : Nat := if faultyWords.any (·.toList == word) then 1 else 0

/-- The number of words to replace in a text, `word` being the letters that end in front
of it. -/
def faultsFrom (word : Text) : Text → Nat
  | [] => faultOf word
  | c :: rest =>
    if c.isAlpha then faultsFrom (word ++ [c]) rest else faultOf word + faultsFrom [] rest

/-- The number of words to replace in a text. -/
def faults (text : Text) : Nat := faultsFrom [] text

/-- A blank is no letter. -/
theorem isAlpha_of_isBlank {c : Char} (blank : isBlank c = true) : c.isAlpha = false := by
  simp only [isBlank, Bool.or_eq_true, Bool.and_eq_true, decide_eq_true_eq, beq_iff_eq] at blank
  have alpha : c.isAlpha = (decide (c.val ≥ 'A'.val ∧ c.val ≤ 'Z'.val) ||
      c.val ≥ 'a'.val && c.val ≤ 'z'.val) := rfl
  simp only [alpha, Bool.or_eq_false_iff, Bool.and_eq_false_iff, decide_eq_false_iff_not, ge_iff_le,
    UInt32.le_iff_toNat_le]
  have code : c.toNat = c.val.toNat := rfl
  have upper : 'A'.val.toNat = 65 ∧ 'Z'.val.toNat = 90 := ⟨rfl, rfl⟩
  have lower : 'a'.val.toNat = 97 ∧ 'z'.val.toNat = 122 := ⟨rfl, rfl⟩
  omega

/-- A text that does not go on with a word. -/
def Breaks (text : Text) : Prop := ∀ c ∈ text.head?, c.isAlpha = false

/-- The empty text does not go on with a word. -/
theorem Breaks.nil : Breaks [] := by simp [Breaks]

/-- A text breaks words exactly if its first character is no letter. -/
theorem breaks_cons {c : Char} {rest : Text} : Breaks (c :: rest) ↔ c.isAlpha = false := by
  simp [Breaks]

/-- What breaks words still does with more text behind it. -/
theorem Breaks.append {front rest : Text} (front_breaks : Breaks front)
    (rest_breaks : Breaks rest) : Breaks (front ++ rest) := by
  cases front with
  | nil => exact rest_breaks
  | cons c front => exact breaks_cons.mpr (breaks_cons.mp front_breaks)

/-- A gap without letters does not go on with a word. -/
theorem breaks_of_forall {gap : Text} (gapped : ∀ c ∈ gap, c.isAlpha = false) : Breaks gap :=
  fun c head => gapped c (List.mem_of_mem_head? head)

/-- Where the rest does not go on with a word, words are counted on both sides. -/
theorem faultsFrom_append {rest : Text} (breaks : Breaks rest) (word front : Text) :
    faultsFrom word (front ++ rest) = faultsFrom word front + faults rest := by
  induction front generalizing word with
  | nil =>
    cases rest with
    | nil => rfl
    | cons c rest =>
      have nonletter : ¬c.isAlpha = true := by simp [breaks_cons.mp breaks]
      simp only [List.nil_append, faults, faultsFrom, if_neg nonletter]
      have none : faultOf [] = 0 := rfl
      rw [none, Nat.zero_add]
  | cons c front ih =>
    simp only [List.cons_append, faultsFrom]
    split
    · exact ih _
    · rw [ih, Nat.add_assoc]

/-- Words to replace are counted part by part. -/
theorem faults_append {front rest : Text} (breaks : Breaks rest) :
    faults (front ++ rest) = faults front + faults rest :=
  faultsFrom_append breaks [] front

/-- A gap between words holds none. -/
theorem faults_gap_append {gap : Text} (gapped : ∀ c ∈ gap, c.isAlpha = false) (rest : Text) :
    faults (gap ++ rest) = faults rest := by
  induction gap with
  | nil => rfl
  | cons c gap ih =>
    have nonletter : ¬c.isAlpha = true := by simp [gapped c (by simp)]
    have further := ih fun d listed => gapped d (by simp [listed])
    have none : faultOf [] = 0 := rfl
    rw [← further, List.cons_append, faults, faultsFrom, if_neg nonletter, none, Nat.zero_add,
      faults]

/-- Words are counted on both sides of a gap. -/
theorem faults_append_gap {front gap rest : Text} (gapped : ∀ c ∈ gap, c.isAlpha = false)
    (present : gap ≠ [] ∨ Breaks rest) :
    faults (front ++ (gap ++ rest)) = faults front + faults rest := by
  have breaks : Breaks (gap ++ rest) := by
    cases gap with
    | nil =>
      rcases present with present | breaks
      · exact absurd rfl present
      · exact breaks
    | cons c gap => exact breaks_cons.mpr (gapped c (by simp))
  rw [faults_append breaks, faults_gap_append gapped]

/-- Letters between other characters are one word. -/
theorem faultsFrom_letters {letters : Text} (alpha : ∀ c ∈ letters, c.isAlpha = true)
    (word : Text) : faultsFrom word letters = faultOf (word ++ letters) := by
  induction letters generalizing word with
  | nil => rw [faultsFrom, List.append_nil]
  | cons c letters ih =>
    rw [faultsFrom, if_pos (alpha c (by simp)),
      ih fun d listed => alpha d (by simp [listed])]
    simp

/-- A text of letters is one word. -/
theorem faults_letters {letters : Text} (alpha : ∀ c ∈ letters, c.isAlpha = true) :
    faults letters = faultOf letters :=
  faultsFrom_letters alpha []

/-- Behind anything but a letter a word is counted on its own. -/
theorem faults_append_letters {front letters : Text} (ends : Breaks front.reverse)
    (alpha : ∀ c ∈ letters, c.isAlpha = true) :
    faults (front ++ letters) = faults front + faultOf letters := by
  rw [← faults_letters alpha]
  rcases List.eq_nil_or_concat front with rfl | ⟨init, c, rfl⟩
  · exact (Nat.zero_add _).symm
  · have nonletter : c.isAlpha = false := breaks_cons.mp (by simpa using ends)
    have gapped : ∀ d ∈ [c], d.isAlpha = false := by simpa using nonletter
    have alone : faults [c] = 0 := faults_gap_append gapped []
    rw [List.concat_eq_append, List.append_assoc, faults_append_gap gapped (.inl (by simp)),
      faults_append (breaks_of_forall gapped), alone, Nat.add_zero]

/-! ### The end of a line -/

/-- The last character of a line that is none of the skipped ones. -/
def lastBut (skipped : String) (line : Text) : Option Char := line.reverse.find? (notAmong skipped)

/-- The last character that counts is the rest's, or the front's. -/
theorem lastBut_append (skipped : String) (front rest : Text) :
    lastBut skipped (front ++ rest) = (lastBut skipped rest).or (lastBut skipped front) := by
  rw [lastBut, List.reverse_append, List.find?_append]
  rfl

/-- Of skipped characters only, none is the last that counts. -/
theorem lastBut_eq_none {skipped : String} {rest : Text}
    (all : ∀ c ∈ rest, among skipped c = true) : lastBut skipped rest = none := by
  rw [lastBut, List.find?_eq_none]
  intro c listed
  simp [notAmong, all c (List.mem_reverse.mp listed)]

/-- A line with a character that counts has a last one. -/
theorem exists_lastBut {skipped : String} {line : Text}
    (solid : ∃ c ∈ line, among skipped c = false) :
    ∃ c ∈ line, lastBut skipped line = some c := by
  obtain ⟨c, listed, other⟩ := solid
  have found : (line.reverse.find? (notAmong skipped)).isSome = true :=
    List.find?_isSome.mpr ⟨c, List.mem_reverse.mpr listed, by simp [notAmong, other]⟩
  obtain ⟨last, found⟩ := Option.isSome_iff_exists.mp found
  exact ⟨last, List.mem_reverse.mp (List.mem_of_find?_eq_some found), found⟩

/-- A line that ends in a block, semicolons apart. -/
def isSealed (line : Text) : Bool := lastBut "; \t\r" line == some '\x7d'

/-- A line that ends in a semicolon or a block. -/
def isEnded (line : Text) : Bool := (lastBut " \t\r" line).any (among ";\x7d")

/-! ### The weight -/

/-- What is still to mend on a line that starts in a mode. -/
def weight (mode : Mode) (line : Text) : Nat :=
  4 * (faults line + parenDepth mode 0 line) + (if isSealed line then 0 else 2) +
    (if isEnded line then 0 else 1)

section Compare

variable {mode : Mode} {line mended : Text}

/-- Words to replace and open parentheses count for more than all else. -/
theorem weight_lt_of_load
    (less : faults mended + parenDepth mode 0 mended < faults line + parenDepth mode 0 line) :
    weight mode mended < weight mode line := by
  simp only [weight]
  split <;> split <;> split <;> split <;> omega

/-- A block at the end counts for more than a semicolon. -/
theorem weight_lt_of_sealed (words : faults mended = faults line)
    (depth : parenDepth mode 0 mended = parenDepth mode 0 line) (before : isSealed line = false)
    (after : isSealed mended = true) : weight mode mended < weight mode line := by
  simp only [weight, words, depth, before, after, Bool.false_eq_true, ↓reduceIte]
  split <;> split <;> omega

/-- A line that now ends in a semicolon or a block weighs less. -/
theorem weight_lt_of_ended (words : faults mended = faults line)
    (depth : parenDepth mode 0 mended = parenDepth mode 0 line)
    (block : isSealed mended = isSealed line) (before : isEnded line = false)
    (after : isEnded mended = true) : weight mode mended < weight mode line := by
  simp [weight, words, depth, block, before, after]

end Compare

/-! ### What the remedies do to the weight of a line -/

section Remedies

variable {mode : Mode} {front : Text}

/-- A letter is plain and no parenthesis. -/
theorem isPlain_of_isAlpha {c : Char} (alpha : c.isAlpha = true) :
    Mode.isPlain c = true ∧ isParen c = false :=
  isPlain_of_isCallHead (by simp [isCallHead, alpha])

/-- Letters in code are as good as other letters to what follows. -/
theorem parenDepth_letters (inside : (mode.after front).inCode = true) {letters : Text}
    (present : letters ≠ []) (alpha : ∀ c ∈ letters, c.isAlpha = true) (rest : Text) :
    parenDepth mode 0 (front ++ (letters ++ rest)) =
      parenDepth .code (parenDepth mode 0 front) rest := by
  rw [parenDepth_append, parenDepth_append,
    parenDepth_of_absent fun c listed => (isPlain_of_isAlpha (alpha c listed)).2,
    Mode.after_of_inCode inside present fun c listed => (isPlain_of_isAlpha (alpha c listed)).1]

/-- A word replaced by one that needs no replacement. -/
theorem weight_replaced (inside : (mode.after front).inCode = true) (ends : Breaks front.reverse)
    {wrong right rest : Text} (breaks : Breaks rest) (wrong_alpha : ∀ c ∈ wrong, c.isAlpha = true)
    (right_alpha : ∀ c ∈ right, c.isAlpha = true) (present : right ≠ [])
    (faulty : faultOf wrong = 1) (good : faultOf right = 0) :
    weight mode (front ++ (right ++ rest)) < weight mode (front ++ (wrong ++ rest)) := by
  have present' : wrong ≠ [] := by
    rintro rfl
    cases faulty
  apply weight_lt_of_load
  rw [parenDepth_letters inside present right_alpha, parenDepth_letters inside present' wrong_alpha,
    ← List.append_assoc, ← List.append_assoc, faults_append breaks, faults_append breaks,
    faults_append_letters ends right_alpha, faults_append_letters ends wrong_alpha, faulty, good]
  omega

/-- Closers and blanks at the end of a call separate no words that were not separate. -/
theorem faults_closed {call new kept blanks final trailing tail : Text} {missing : Nat}
    (closing : Closing call new kept blanks final trailing missing) (tail_breaks : Breaks tail) :
    faults (front ++ (new ++ tail)) = faults (front ++ (call ++ tail)) := by
  have trailing_breaks : Breaks trailing := by
    intro c head
    rcases closing.start c head with blank | rfl
    · exact isAlpha_of_isBlank blank
    · rfl
  have final_gap : ∀ c ∈ final, c.isAlpha = false := by
    rcases closing.ending with rfl | rfl
    · simp
    · simp
  have separate (gap : Text) (gapped : ∀ c ∈ gap, c.isAlpha = false) :
      faults (front ++ (kept ++ gap ++ final ++ trailing ++ tail)) =
        faults (front ++ kept) + faults (trailing ++ tail) := by
    have regroup : front ++ (kept ++ gap ++ final ++ trailing ++ tail) =
        front ++ kept ++ ((gap ++ final) ++ (trailing ++ tail)) := by simp
    rw [regroup, faults_append_gap _ (.inr (trailing_breaks.append tail_breaks))]
    intro c listed
    rcases List.mem_append.mp listed with inGap | inFinal
    · exact gapped c inGap
    · exact final_gap c inFinal
  rw [closing.new_eq, closing.call_eq, separate, separate]
  · exact fun c listed => isAlpha_of_isBlank (closing.blank c listed)
  · intro c listed
    obtain rfl := List.eq_of_mem_replicate listed
    rfl

/-- A call closed at the end of its line. What stands behind it on the line can only be a
semicolon. -/
theorem weight_closed (inside : (mode.after front).inCode = true)
    {call new kept blanks final trailing tail : Text} {missing : Nat} (openCall : OpenCall call)
    (closing : Closing call new kept blanks final trailing missing)
    (ending : tail = [] ∨ tail = [';']) :
    weight mode (front ++ (new ++ tail)) < weight mode (front ++ (call ++ tail)) := by
  have noParen : ∀ c ∈ tail, isParen c = false := by
    rcases ending with rfl | rfl <;> simp [isParen]
  have tail_breaks : Breaks tail := by
    rcases ending with rfl | rfl <;> simp [Breaks]
  have depth (text : Text) (head : ∀ c ∈ text.head?, c ≠ '/' ∧ c ≠ '*') :
      parenDepth mode 0 (front ++ (text ++ tail)) =
        parenDepth .code (parenDepth mode 0 front) text := by
    rw [parenDepth_append, parenDepth_append, parenDepth_of_absent noParen,
      parenDepth_of_inCode inside head]
  have positive := closing.positive
  apply weight_lt_of_load
  rw [faults_closed closing tail_breaks, depth new (closing.head openCall), closing.closed,
    depth call openCall.head, closing.opened]
  omega

/-- Two gaps without parentheses leave the depth as it is. -/
theorem parenDepth_gaps {gap gap' : Text} (absent : ∀ c ∈ gap, isParen c = false)
    (absent' : ∀ c ∈ gap', isParen c = false) :
    parenDepth mode 0 (front ++ (gap ++ gap')) = parenDepth mode 0 front := by
  rw [parenDepth_append, parenDepth_append, parenDepth_of_absent absent,
    parenDepth_of_absent absent']

/-- A semicolon put behind a line that ends in neither a semicolon nor a block makes it lighter, as
only its end changes. -/
theorem weight_ended {last : Char} {blanks : Text} (ends : front.getLast? = some last)
    (solid : among " \t\r" last = false) (unended : among ";\x7d" last = false)
    (blank : ∀ c ∈ blanks, among " \t\r" c = true) :
    weight mode (front ++ ([';'] ++ blanks)) < weight mode (front ++ ([] ++ blanks)) := by
  have final_of_front : lastBut " \t\r" front = some last := by
    obtain ⟨init, rfl⟩ := List.getLast?_eq_some_iff.mp ends
    simp [lastBut, notAmong, solid]
  have blanks_gapped : ∀ c ∈ blanks, c.isAlpha = false := fun c listed =>
    of_among Char.isAlpha (blank c listed) (by decide)
  have words (gap : Text) (gapped : ∀ c ∈ gap, c.isAlpha = false) :
      faults (front ++ (gap ++ blanks)) = faults front + faults blanks :=
    faults_append_gap gapped (.inr (breaks_of_forall blanks_gapped))
  have noParen : ∀ c ∈ blanks, isParen c = false := fun c listed =>
    of_among isParen (blank c listed) (by decide)
  have block (gap : Text) (semicolons : ∀ c ∈ gap, among "; \t\r" c = true) :
      isSealed (front ++ (gap ++ blanks)) = isSealed front := by
    have skipped : ∀ c ∈ blanks, among "; \t\r" c = true := fun c listed =>
      of_among (among "; \t\r") (blank c listed) (by decide)
    rw [isSealed, lastBut_append, lastBut_append, lastBut_eq_none semicolons,
      lastBut_eq_none skipped]
    rfl
  apply weight_lt_of_ended
  · rw [words [';'] (List.forall_mem_singleton.mpr rfl), words [] (by simp)]
  · rw [parenDepth_gaps (List.forall_mem_singleton.mpr rfl) noParen,
      parenDepth_gaps (by simp) noParen]
  · rw [block [';'] (List.forall_mem_singleton.mpr rfl), block [] (by simp)]
  · rw [isEnded, List.nil_append, lastBut_append, lastBut_eq_none blank, final_of_front]
    exact unended
  · rw [isEnded, lastBut_append, lastBut_append, lastBut_eq_none blank]
    rfl

/-- The head of a statement before and after its body is put in braces: the same words,
the same parentheses, and the body is read in the same mode. -/
structure SameHead (mode : Mode) (old new : Text) : Prop where
  words : ∀ front rest, faults (front ++ (old ++ rest)) = faults (front ++ (new ++ rest))
  depth : ∀ depth, parenDepth mode depth old = parenDepth mode depth new
  modes : mode.after old = mode.after new

/-- A statement loses its last blanks and may gain a semicolon. -/
theorem ended_eq (body : Text) :
    ∃ final, Block.ended body = body.trimEnd ++ final ∧ (final = [] ∨ final = [';']) := by
  simp only [Block.ended]
  split
  · exact ⟨[], by simp, .inl rfl⟩
  · exact ⟨[';'], rfl, .inr rfl⟩

/-- A body put in braces at the end of its line makes the line lighter: words and parentheses stay,
and the line now ends in a block. -/
theorem weight_wrapped {old new body trailing tail : Text}
    (heads : SameHead (mode.after front) old new)
    (unbraced : ∀ c ∈ body, c ≠ '\x7d') (solid : ∃ c ∈ body, among "; \t\r" c = false)
    (blank : ∀ c ∈ trailing, among " \t\r" c = true) (ending : tail = [] ∨ tail = [';']) :
    weight mode (front ++ (new ++ (Block.ended body ++ (" \x7d".toList ++ (trailing ++ tail))))) <
      weight mode (front ++ (old ++ (body ++ (trailing ++ tail)))) := by
  obtain ⟨blanks, trimmed, isBlank⟩ := Text.exists_blanks_of_trimEnd body
  obtain ⟨final, ended, finalEnding⟩ := ended_eq body
  have skipped : ∀ c ∈ trailing ++ tail, among "; \t\r" c = true := by
    intro c listed
    rcases List.mem_append.mp listed with inTrailing | inTail
    · exact of_among (among "; \t\r") (blank c inTrailing) (by decide)
    · rcases ending with rfl | rfl
      · cases inTail
      · obtain rfl := List.mem_singleton.mp inTail
        rfl
  have noParen : ∀ c ∈ trailing ++ tail, isParen c = false := fun c listed =>
    of_among isParen (skipped c listed) (by decide)
  have gapped : ∀ c ∈ trailing ++ tail, c.isAlpha = false := fun c listed =>
    of_among Char.isAlpha (skipped c listed) (by decide)
  have words (gap : Text) (gapped' : ∀ c ∈ gap, c.isAlpha = false) :
      faults (front ++ (new ++ (body.trimEnd ++ (gap ++ (trailing ++ tail))))) =
        faults (front ++ (new ++ body.trimEnd)) + faults (trailing ++ tail) := by
    rw [← List.append_assoc new, ← List.append_assoc front,
      faults_append_gap gapped' (.inr (breaks_of_forall gapped))]
  have depth (gap : Text) (noParen' : ∀ c ∈ gap, isParen c = false) :
      parenDepth mode 0 (front ++ (new ++ (body.trimEnd ++ (gap ++ (trailing ++ tail))))) =
        parenDepth mode 0 (front ++ (new ++ body.trimEnd)) := by
    rw [← List.append_assoc new, ← List.append_assoc front, parenDepth_gaps noParen' noParen]
  have regroup : front ++ (new ++ (Block.ended body ++ (" \x7d".toList ++ (trailing ++ tail)))) =
      front ++ (new ++ (body.trimEnd ++ ((final ++ " \x7d".toList) ++ (trailing ++ tail)))) := by
    simp [ended]
  have split (head : Text) : front ++ (head ++ (body ++ (trailing ++ tail))) =
      front ++ (head ++ (body.trimEnd ++ (blanks ++ (trailing ++ tail)))) := by
    rw [← List.append_assoc body.trimEnd, ← trimmed]
  apply weight_lt_of_sealed
  · rw [heads.words, regroup, split, words, words]
    · exact fun c listed => isAlpha_of_isBlank (isBlank c listed)
    · rcases finalEnding with rfl | rfl <;> simp
  · have sameHead (rest : Text) :
        parenDepth mode 0 (front ++ (old ++ rest)) =
          parenDepth mode 0 (front ++ (new ++ rest)) := by
      rw [parenDepth_append, parenDepth_append, parenDepth_append, parenDepth_append, heads.depth,
        heads.modes]
    rw [sameHead, regroup, split, depth, depth]
    · exact fun c listed => isParen_of_isBlank (isBlank c listed)
    · rcases finalEnding with rfl | rfl <;> simp [isParen]
  · -- The last character that counts is one of the body, and the body has no brace.
    obtain ⟨d, inBody, last⟩ := exists_lastBut solid
    rw [isSealed, lastBut_append, lastBut_append, lastBut_append, lastBut_eq_none skipped, last]
    simpa using unbraced d inBody
  · have brace : lastBut "; \t\r" " \x7d".toList = some '\x7d' := by decide
    rw [isSealed, lastBut_append, lastBut_append, lastBut_append, lastBut_append _ " \x7d".toList,
      lastBut_eq_none skipped, brace]
    rfl

/-- A head that does not change is the same head. -/
theorem SameHead.refl (mode : Mode) (text : Text) : SameHead mode text text :=
  ⟨fun _ _ => rfl, fun _ => rfl, rfl⟩

/-- Heads are the same part by part. -/
theorem SameHead.append {old new old' new' : Text} (first : SameHead mode old new)
    (second : SameHead (mode.after new) old' new') : SameHead mode (old ++ old') (new ++ new') := by
  refine ⟨?_, ?_, ?_⟩
  · intro front rest
    rw [List.append_assoc, first.words, ← List.append_assoc, second.words, List.append_assoc,
      List.append_assoc]
  · intro depth
    rw [parenDepth_append, parenDepth_append, first.modes, second.depth, first.depth]
  · rw [Mode.after_append, Mode.after_append, first.modes, second.modes]

/-- A plain character that is no letter. -/
def separates (c : Char) : Bool := Mode.isPlain c && !c.isAlpha

/-- One gap between words is as good as another with the same parentheses, if both are there and are
made of plain characters. -/
theorem SameHead.gap {old new : Text} (proper : mode.Proper) (present : old ≠ [])
    (present' : new ≠ [])
    (gap : ∀ c ∈ old, separates c = true) (gap' : ∀ c ∈ new, separates c = true)
    (parens : old.filter isParen = new.filter isParen) : SameHead mode old new := by
  simp only [separates, Bool.and_eq_true, Bool.not_eq_true'] at gap gap'
  have plain : ∀ c ∈ old, Mode.isPlain c = true := fun c listed => (gap c listed).1
  have plain' : ∀ c ∈ new, Mode.isPlain c = true := fun c listed => (gap' c listed).1
  refine ⟨?_, ?_, ?_⟩
  · intro front rest
    rw [faults_append_gap (fun c listed => (gap c listed).2) (.inl present),
      faults_append_gap (fun c listed => (gap' c listed).2) (.inl present')]
  · intro depth
    apply openParens_congr
    rw [Mode.map_snd_visible_of_isPlain proper plain, Mode.map_snd_visible_of_isPlain proper plain',
      parens]
  · rw [Mode.after_of_isPlain proper present plain, Mode.after_of_isPlain proper present' plain']

/-- A gap of spaces and tabs has no parentheses. -/
theorem filter_isParen_of_among {gap : Text} (blank : ∀ c ∈ gap, among " \t" c = true) :
    gap.filter isParen = [] := by
  rw [List.filter_eq_nil_iff]
  intro c listed paren
  have none : isParen c = false := of_among isParen (blank c listed) (by decide)
  rw [none] at paren
  cases paren

/-- The keyword of an alternative and a gap. -/
theorem sameHead_else {gap : Text} (proper : mode.Proper) (present : gap ≠ [])
    (blank : ∀ c ∈ gap, among " \t" c = true) :
    SameHead mode ("else".toList ++ gap) ("else".toList ++ " \x7b ".toList) := by
  have separate : ∀ c ∈ gap, separates c = true := fun c listed =>
    of_among separates (blank c listed) (by decide)
  have parens : gap.filter isParen = " \x7b ".toList.filter isParen := by
    rw [filter_isParen_of_among blank]
    decide
  exact (SameHead.refl mode _).append
    (.gap (proper.after _) present (by decide) separate (List.all_eq_true.mp (by decide)) parens)

/-- The keyword of a conditional, its condition, and a gap. The parentheses around the condition
stay, and the brace is one more character of a gap. -/
theorem sameHead_if {gap condition gap' : Text} (proper : mode.Proper)
    (blank : ∀ c ∈ gap, among " \t" c = true) (blank' : ∀ c ∈ gap', among " \t" c = true) :
    SameHead mode ("if".toList ++ (gap ++ ['(']) ++ condition ++ ([')'] ++ gap'))
      ("if".toList ++ " (".toList ++ condition ++ ") \x7b ".toList) := by
  have separate : ∀ c ∈ gap ++ ['('], separates c = true := by
    intro c listed
    rcases List.mem_append.mp listed with inGap | paren
    · exact of_among separates (blank c inGap) (by decide)
    · obtain rfl := List.mem_singleton.mp paren
      rfl
  have separate' : ∀ c ∈ [')'] ++ gap', separates c = true := by
    intro c listed
    rcases List.mem_append.mp listed with paren | inGap
    · obtain rfl := List.mem_singleton.mp paren
      rfl
    · exact of_among separates (blank' c inGap) (by decide)
  have parens : (gap ++ ['(']).filter isParen = " (".toList.filter isParen := by
    rw [List.filter_append, filter_isParen_of_among blank]
    decide
  have parens' : ([')'] ++ gap').filter isParen = ") \x7b ".toList.filter isParen := by
    rw [List.filter_append, filter_isParen_of_among blank']
    decide
  have opened := (SameHead.refl mode "if".toList).append
    (.gap (proper.after _) (by simp) (by decide) separate (List.all_eq_true.mp (by decide)) parens)
  exact (opened.append (.refl _ condition)).append
    (.gap (proper.after _) (by simp) (by decide) separate'
      (List.all_eq_true.mp (by decide)) parens')

end Remedies

end ScriptCheck.Line
