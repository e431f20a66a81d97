import Mathlib.Data.List.Induction
import ScriptCheck.Proofs.CodeView
import ScriptCheck.Proofs.Lines
import ScriptCheck.Proofs.Position

/-!
# A carriage return in front of every newline

A text may end its lines by a newline alone, or by a carriage return and a newline. The
second form of a text, its CRLF text, is defined here, with what it does to the parts of a
text that are asked for: lines and columns do not change, offsets move on by the newlines in
front of them, and trimming, splitting and looking for a word do not tell the two forms apart.

Nor do the modes of the automaton, with one exception. In a literal a backslash takes the
next character along, which is then the carriage return, and the newline behind it ends
the literal unless it is a template literal. A text in which this does not happen is said
to continue no literal.
-/

namespace ScriptCheck

namespace Text

/-- The text with a carriage return in front of every newline. -/
def crlf (text : Text) : Text := text.flatMap fun c => if c = '\n' then ['\r', '\n'] else [c]

/-- The CRLF form of the empty text is empty. -/
@[simp] theorem crlf_nil : crlf [] = [] := rfl

/-- A newline gets a carriage return in front of it. -/
@[simp] theorem crlf_newline (rest : Text) :
    crlf ('\n' :: rest) = '\r' :: '\n' :: crlf rest := rfl

/-- Another character than a newline stays as it is. -/
theorem crlf_cons {c : Char} (other : c ≠ '\n') (rest : Text) :
    crlf (c :: rest) = c :: crlf rest := by
  simp [crlf, other]

/-- The CRLF form is taken part by part. -/
@[simp] theorem crlf_append (front rest : Text) :
    crlf (front ++ rest) = crlf front ++ crlf rest :=
  List.flatMap_append

/-- A text of one line stays as it is. -/
theorem crlf_of_oneLine {text : Text} (oneLine : ∀ c ∈ text, c ≠ '\n') :
    text.crlf = text := by
  induction text with
  | nil => rfl
  | cons c rest ih =>
    rw [crlf_cons (oneLine c (by simp)),
      ih fun d listed => oneLine d (by simp [listed])]

/-- Apart from carriage returns the characters stay what they are. -/
theorem mem_crlf {text : Text} {c : Char} (other : c ≠ '\r') :
    c ∈ text.crlf ↔ c ∈ text := by
  induction text with
  | nil => rfl
  | cons d rest ih =>
    by_cases newline : d = '\n'
    · subst newline
      simp [ih, other]
    · simp [crlf_cons newline, ih]

/-- A text without newlines is the CRLF form of itself alone. -/
theorem crlf_eq_iff {text word : Text} (oneLine : ∀ c ∈ word, c ≠ '\n') :
    text.crlf = word ↔ text = word := by
  constructor
  · rintro rfl
    refine (crlf_of_oneLine fun c listed newline => ?_).symm
    subst newline
    exact oneLine '\n' ((mem_crlf (by decide)).mpr listed) rfl
  · rintro rfl
    exact crlf_of_oneLine oneLine

/-- Apart from the line ends, a place in the CRLF text is one of the text. -/
theorem exists_of_crlf_eq {text left' right' : Text} {c : Char} (notCr : c ≠ '\r')
    (notNewline : c ≠ '\n') (whole : text.crlf = left' ++ c :: right') :
    ∃ left right : Text,
      text = left ++ c :: right ∧ left' = left.crlf ∧ right' = right.crlf := by
  induction text generalizing left' with
  | nil => simp at whole
  | cons d rest ih =>
    by_cases newline : d = '\n'
    · subst newline
      rw [crlf_newline] at whole
      match left' with
      | [] => exact absurd (List.cons.inj whole).1.symm notCr
      | [e] => exact absurd (List.cons.inj (List.cons.inj whole).2).1.symm notNewline
      | e :: e' :: left' =>
        obtain ⟨rfl, further⟩ := List.cons.inj whole
        obtain ⟨rfl, further'⟩ := List.cons.inj further
        obtain ⟨left, right, rfl, rfl, rfl⟩ := ih further'
        exact ⟨'\n' :: left, right, rfl, rfl, rfl⟩
    · rw [crlf_cons newline] at whole
      cases left' with
      | nil =>
        obtain ⟨rfl, rfl⟩ := List.cons.inj whole
        exact ⟨[], rest, rfl, rfl, rfl⟩
      | cons e left' =>
        obtain ⟨rfl, further⟩ := List.cons.inj whole
        obtain ⟨left, right, rfl, rfl, rfl⟩ := ih further
        exact ⟨d :: left, right, rfl, (crlf_cons newline left).symm, rfl⟩

/-- A word without line ends is in front of the rest of both forms, and the rest is the CRLF form of
a rest. -/
theorem exists_of_crlf_append {text word rest' : Text}
    (inLine : ∀ c ∈ word, c ≠ '\r' ∧ c ≠ '\n') (whole : text.crlf = word ++ rest') :
    ∃ rest : Text, text = word ++ rest ∧ rest' = rest.crlf := by
  induction word generalizing text with
  | nil => exact ⟨text, rfl, whole.symm⟩
  | cons c word ih =>
    obtain ⟨notCr, notNewline⟩ := inLine c (by simp)
    obtain ⟨left, right, rfl, start, behind⟩ :=
      @exists_of_crlf_eq text [] (word ++ rest') c notCr notNewline whole
    obtain rfl : left = [] := by
      cases left with
      | nil => rfl
      | cons d left => by_cases newline : d = '\n' <;> simp [crlf, newline] at start
    obtain ⟨rest, rfl, rfl⟩ :=
      ih (fun d listed => inLine d (by simp [listed])) behind.symm
    exact ⟨rest, rfl, rfl⟩

/-- The CRLF form has as many newlines as the text. -/
@[simp] theorem count_crlf (text : Text) : text.crlf.count '\n' = text.count '\n' := by
  induction text with
  | nil => rfl
  | cons c rest ih =>
    by_cases newline : c = '\n'
    · subst newline
      simp [ih]
    · rw [crlf_cons newline, List.count_cons, List.count_cons, ih]

/-- The CRLF form is wider by one byte for every newline, which is what its carriage return
takes. -/
theorem width_crlf (text : Text) : text.crlf.width = text.width + text.count '\n' := by
  induction text with
  | nil => rfl
  | cons c rest ih =>
    by_cases newline : c = '\n'
    · subst newline
      have single : '\r'.utf8Size = 1 := rfl
      rw [crlf_newline, width_cons, width_cons, width_cons, ih,
        List.count_cons_self, single]
      omega
    · rw [crlf_cons newline, width_cons, width_cons, ih,
        List.count_cons_of_ne newline]
      omega

/-! ### The ends of a text -/

/-- The last character stays what it is. -/
theorem getLast?_crlf (text : Text) : text.crlf.getLast? = text.getLast? := by
  rcases List.eq_nil_or_concat text with rfl | ⟨front, c, rfl⟩
  · rfl
  · by_cases newline : c = '\n'
    · subst newline
      simp
    · simp [crlf_cons newline]

/-- The first character stays, but a newline gives a carriage return. -/
theorem head?_crlf (text : Text) :
    text.crlf.head? = text.head?.map fun c => if c = '\n' then '\r' else c := by
  cases text with
  | nil => rfl
  | cons c rest =>
    by_cases newline : c = '\n'
    · subst newline
      rfl
    · simp [crlf_cons newline, newline]

/-- Neither of the two ends of a line goes on with a word. -/
theorem delimits_head?_crlf (text : Text) :
    delimits text.crlf.head? = delimits text.head? := by
  rw [head?_crlf]
  cases text.head? with
  | none => rfl
  | some c =>
    by_cases newline : c = '\n'
    · subst newline
      rfl
    · simp [newline]

/-- A word without line ends is at the start of both forms or of none. The induction is on the
word. -/
theorem startsWith_crlf (text : Text) {word : Text}
    (inLine : ∀ c ∈ word, c ≠ '\r' ∧ c ≠ '\n') :
    text.crlf.startsWith word = text.startsWith word := by
  induction word generalizing text with
  | nil => simp [startsWith]
  | cons d word ih =>
    obtain ⟨notCr, notNewline⟩ := inLine d (by simp)
    cases text with
    | nil => rfl
    | cons c rest =>
      by_cases newline : c = '\n'
      · subst newline
        have here : (d == '\r') = false ∧ (d == '\n') = false := by simp [notCr, notNewline]
        simp [startsWith, List.isPrefixOf, here]
      · have further := ih rest fun e listed => inLine e (by simp [listed])
        simp only [startsWith] at further
        simp [startsWith, crlf_cons newline, List.isPrefixOf, further]

/-- A word without line ends is at the end of both forms or of none, since a word is compared from
the last character on. -/
theorem endsWith_crlf (text : Text) {word : Text}
    (inLine : ∀ c ∈ word, c ≠ '\r' ∧ c ≠ '\n') :
    text.crlf.endsWith word = text.endsWith word := by
  have oneLine : ∀ c ∈ word, c ≠ '\n' := fun c listed => (inLine c listed).2
  rw [endsWith, endsWith, Bool.eq_iff_iff, List.isSuffixOf_iff_suffix, List.isSuffixOf_iff_suffix]
  constructor
  · rintro ⟨front', whole⟩
    cases word with
    | nil => exact List.nil_suffix
    | cons c word =>
      obtain ⟨notCr, notNewline⟩ := inLine c (by simp)
      obtain ⟨left, right, rfl, -, behind⟩ :=
        exists_of_crlf_eq notCr notNewline whole.symm
      obtain rfl := (crlf_eq_iff fun d listed => oneLine d (by simp [listed])).mp behind.symm
      exact ⟨left, rfl⟩
  · rintro ⟨front, rfl⟩
    exact ⟨crlf front, by rw [crlf_append, crlf_of_oneLine oneLine]⟩

/-- Blanks at the start are trimmed alike in both forms. -/
theorem trimStart_crlf (text : Text) : text.crlf.trimStart = text.trimStart.crlf := by
  induction text with
  | nil => rfl
  | cons c rest ih =>
    simp only [trimStart] at ih
    by_cases newline : c = '\n'
    · subst newline
      have blank : isBlank '\r' = true ∧ isBlank '\n' = true := by decide
      simp [trimStart, blank, ih]
    · rw [crlf_cons newline]
      cases blank : isBlank c <;>
        simp [trimStart, blank, ih, crlf_cons newline]

/-- Blanks at the end are trimmed alike in both forms, because both line ends are blanks. -/
theorem trimEnd_crlf (text : Text) : text.crlf.trimEnd = text.trimEnd.crlf := by
  induction text using List.reverseRecOn with
  | nil => rfl
  | append_singleton front c ih =>
    by_cases newline : c = '\n'
    · subst newline
      have blank : isBlank '\r' = true ∧ isBlank '\n' = true := by decide
      have split : crlf (front ++ ['\n']) = crlf front ++ ['\r'] ++ ['\n'] := by simp
      rw [split, trimEnd_concat, trimEnd_concat, trimEnd_concat, if_pos blank.2, if_pos blank.1,
        if_pos blank.2, ih]
    · have split : crlf (front ++ [c]) = crlf front ++ [c] := by
        simp [crlf_cons newline]
      rw [split, trimEnd_concat, trimEnd_concat]
      cases isBlank c with
      | true => exact ih
      | false => exact split.symm

/-- Trimming leaves the CRLF form of the trimmed text. -/
theorem trim_crlf (text : Text) : text.crlf.trim = text.trim.crlf := by
  rw [trim, trimStart_crlf, trimEnd_crlf, trim]

/-! ### Lines -/

/-- The last line is the same in both forms. -/
theorem lastLine_crlf (text : Text) : text.crlf.lastLine = text.lastLine := by
  obtain ⟨oneLine, whole | ⟨above, whole⟩⟩ := lastLine_cases text
  · rw [← whole] at oneLine
    rw [crlf_of_oneLine oneLine]
  · have last : crlf text = crlf above ++ ['\r'] ++ '\n' :: text.lastLine := by
      rw [whole, crlf_append, crlf_newline, ← whole, crlf_of_oneLine oneLine]
      simp
    rw [last, lastLine_append_newline _ oneLine]

/-- A carriage return that ends a line is dropped with it, if the text has none of its own. The
induction carries the line so far. -/
theorem linesFrom_crlf {current text : Text} (noCr : '\r' ∉ current)
    (noCr' : '\r' ∉ text) :
    lineMarks.linesFrom current text.crlf = lineMarks.linesFrom current text := by
  induction text generalizing current with
  | nil => rfl
  | cons c rest ih =>
    obtain ⟨other, behind⟩ : '\r' ≠ c ∧ '\r' ∉ rest := by simpa using noCr'
    by_cases newline : c = '\n'
    · subst newline
      have kept : lineMarks.dropReturn current = current := by
        rcases lineMarks.dropReturn_cases current with kept | crlf
        · exact kept
        · rw [crlf] at noCr
          exact absurd (.head _) noCr
      have dropped : lineMarks.dropReturn ('\r' :: current) = current := rfl
      have further := @ih [] (by simp) behind
      rw [crlf_newline, LineMarks.linesFrom, if_neg (by decide), LineMarks.linesFrom,
        if_pos rfl, dropped, LineMarks.linesFrom, if_pos rfl, kept, further]
    · have further := @ih (c :: current) (by simp [other, noCr]) behind
      rw [crlf_cons newline, LineMarks.linesFrom, LineMarks.linesFrom, if_neg newline,
        if_neg newline, further]

/-- Without carriage returns, both forms have the same lines. -/
theorem lines_crlf {text : Text} (noCr : '\r' ∉ text) : text.crlf.lines = text.lines :=
  linesFrom_crlf (by simp) noCr

/-- A newline at the start of a text ends an empty line. -/
theorem lines_newline (rest : Text) : lines ('\n' :: rest) = [] :: lines rest := rfl

/-- The lines below the first are the same in both forms. -/
theorem drop_lines_crlf {text : Text} (noCr : '\r' ∉ text) :
    (lines (text.crlf.dropWhile (· ≠ '\n'))).drop 1 =
      (lines (text.dropWhile (· ≠ '\n'))).drop 1 := by
  induction text with
  | nil => rfl
  | cons c rest ih =>
    obtain ⟨-, behind⟩ : '\r' ≠ c ∧ '\r' ∉ rest := by simpa using noCr
    by_cases newline : c = '\n'
    · subst newline
      simp [lines_newline, lines_crlf behind]
    · rw [crlf_cons newline, List.dropWhile_cons_of_pos (by simpa using newline),
        List.dropWhile_cons_of_pos (by simpa using newline), ih behind]

/-! ### Offsets -/

/-- The offset in the CRLF text of a place in the text. -/
def shifted (text : Text) (offset : Nat) : Nat := offset + text.newlinesBefore offset

/-- There are at least as many newlines in front of a later offset. The induction is on the text. -/
theorem newlinesBefore_le (text : Text) {offset later : Nat} (ahead : offset ≤ later) :
    text.newlinesBefore offset ≤ text.newlinesBefore later := by
  induction text generalizing offset later with
  | nil =>
    have none (place : Nat) : newlinesBefore [] place = 0 := by cases place <;> rfl
    exact Nat.le_of_eq (by rw [none, none])
  | cons c rest ih =>
    cases offset with
    | zero => simp [newlinesBefore]
    | succ offset =>
      obtain ⟨later, rfl⟩ : ∃ place, later = place + 1 := ⟨later - 1, by omega⟩
      have further := @ih (offset + 1 - c.utf8Size) (later + 1 - c.utf8Size)
        (by omega)
      simp only [newlinesBefore]
      omega

/-- Places keep their order. -/
theorem shifted_lt_iff (text : Text) {offset later : Nat} :
    text.shifted offset < text.shifted later ↔ offset < later := by
  constructor
  · intro before
    apply Classical.byContradiction
    intro behind
    have fewer := text.newlinesBefore_le (show later ≤ offset by omega)
    simp only [shifted] at before
    omega
  · intro before
    have fewer := text.newlinesBefore_le (Nat.le_of_lt before)
    simp only [shifted]
    omega

/-- Different places stay different in the CRLF text. -/
theorem shifted_inj (text : Text) {offset other : Nat} :
    text.shifted offset = text.shifted other ↔ offset = other := by
  have before := @shifted_lt_iff text offset other
  have behind := @shifted_lt_iff text other offset
  omega

/-- The place behind a front moves behind its CRLF form. -/
@[simp] theorem shifted_width (left right : Text) :
    (left ++ right).shifted left.width = left.crlf.width := by
  have counted : (left ++ right).newlinesBefore left.width = left.count '\n' :=
    Nat.add_right_cancel (lineNumber_width left right)
  rw [shifted, counted, width_crlf]

/-- A place keeps its line. -/
theorem lineNumber_crlf (left right : Text) :
    (left ++ right).crlf.lineNumber left.crlf.width =
      (left ++ right).lineNumber left.width := by
  rw [crlf_append, lineNumber_width, lineNumber_width, count_crlf]

/-- A place keeps its column. -/
theorem columnNumber_crlf (left right : Text) :
    (left ++ right).crlf.columnNumber left.crlf.width =
      (left ++ right).columnNumber left.width := by
  rw [crlf_append, columnNumber_width, columnNumber_width, lastLine_crlf]

end Text

/-! ### Modes -/

namespace Mode

/-- No backslash takes a newline along in a literal that a newline would have ended. -/
def ContinuesNone (mode : Mode) (text : Text) : Prop :=
  ∀ before after quote, text = before ++ '\n' :: after →
    mode.after before = .escaped quote → quote = backquote

variable {mode : Mode} {text : Text}

/-- If no backslash continues a line in a text, none does in a front. -/
theorem ContinuesNone.front {front back : Text} (none : mode.ContinuesNone (front ++ back)) :
    mode.ContinuesNone front := by
  intro before after quote whole escaping
  exact none before (after ++ back) quote (by simp [whole]) escaping

/-- If no backslash continues a line in a text, none does in its rest. -/
theorem ContinuesNone.behind {front back : Text} (none : mode.ContinuesNone (front ++ back)) :
    (mode.after front).ContinuesNone back := by
  intro before after quote whole escaping
  exact none (front ++ before) after quote (by simp [whole]) (by rw [after_append, escaping])

/-- If no backslash continues a line, none does behind a character. -/
theorem ContinuesNone.tail {c : Char} {rest : Text} (none : mode.ContinuesNone (c :: rest)) :
    (mode.step c).ContinuesNone rest :=
  @behind mode [c] rest none

/-- Behind a backslash in a literal that a newline would end. -/
def escapesQuoted : Mode → Bool
  | escaped quote => quote != backquote
  | _ => false

/-- Whether a backslash takes a newline along, by one walk over the text. -/
def continues (mode : Mode) : Text → Bool
  | [] => false
  | c :: rest => (c == '\n' && mode.escapesQuoted) || (mode.step c).continues rest

/-- Whether a backslash takes a newline along can be decided by one walk over the text. The
induction is on the text. -/
theorem continuesNone_iff : mode.ContinuesNone text ↔ mode.continues text = false := by
  induction text generalizing mode with
  | nil => simp [ContinuesNone, continues]
  | cons c rest ih =>
    rw [continues, Bool.or_eq_false_iff, ← ih]
    constructor
    · intro none
      refine ⟨?_, none.tail⟩
      by_cases newline : c = '\n'
      · subst newline
        cases mode with
        | escaped quote => simp [escapesQuoted, none [] rest quote rfl rfl]
        | _ => rfl
      · simp [newline]
    · rintro ⟨here, further⟩ before after quote whole escaping
      cases before with
      | nil =>
        obtain ⟨rfl, -⟩ := List.cons.inj whole
        obtain rfl : mode = .escaped quote := escaping
        simpa [escapesQuoted] using here
      | cons d before =>
        obtain ⟨rfl, split⟩ := List.cons.inj whole
        exact further before after quote split escaping

instance (mode : Mode) (text : Text) : Decidable (mode.ContinuesNone text) :=
  decidable_of_iff _ continuesNone_iff.symm

/-- A carriage return in front of a newline changes nothing, except behind a backslash. -/
theorem step_cr_step (proper : mode.Proper)
    (unescaped : ∀ quote, mode = .escaped quote → quote = backquote) :
    (mode.step '\r').step '\n' = mode.step '\n' := by
  cases mode with
  | quoted quote =>
    have other : '\r' ≠ quote := by
      rintro rfl
      cases proper
    simp [step, other]
  | escaped quote =>
    obtain rfl := unescaped quote rfl
    rfl
  | _ => rfl

/-- The modes of the two forms of a text are the same. -/
theorem after_crlf (proper : mode.Proper) (none : mode.ContinuesNone text) :
    mode.after text.crlf = mode.after text := by
  induction text generalizing mode with
  | nil => rfl
  | cons c rest ih =>
    by_cases newline : c = '\n'
    · subst newline
      have here := step_cr_step proper fun quote escaping =>
        none [] rest quote rfl escaping
      rw [Text.crlf_newline, after_cons, after_cons, here,
        ih (proper.step '\n') none.tail, after_cons]
    · rw [Text.crlf_cons newline, after_cons, after_cons,
        ih (proper.step c) none.tail]

/-- Read from the start, both forms end in the same mode. -/
theorem code_after_crlf (none : code.ContinuesNone text) :
    code.after text.crlf = code.after text :=
  @after_crlf code text trivial none

end Mode

end ScriptCheck
