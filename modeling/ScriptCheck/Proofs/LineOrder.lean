import ScriptCheck.Proofs.ShownLines

/-!
# Lines and columns of all offsets

The line of an offset, its bounds, its column and the next line with anything on it are each
found by a search of their own. Here they are compared with one cut of the text, the one at its
newlines. Every offset is on one of the pieces, also inside a character, on a newline and past
the end of the text. Its line is the number of that piece and its bounds are those of the piece.
Over the places between characters, lines and columns grow as the offsets do.
-/

namespace ScriptCheck.Text

/-! ### Offsets on a line -/

/-- The offset is on the line, between its ends or, if nothing follows, anywhere behind its
start. -/
structure OnLine (above line below : Text) (offset : Nat) : Prop where
  behind : above.width ≤ offset
  ahead : offset ≤ above.width + line.width ∨ below = []

/-- No newline of a line is in front of an offset on it. Behind the last line, the offset may even
be beyond the text. -/
theorem newlinesBefore_of_oneLine {line below : Text} (oneLine : ∀ c ∈ line, c ≠ '\n')
    {offset : Nat} (ahead : offset ≤ line.width ∨ below = []) :
    (line ++ below).newlinesBefore offset = 0 := by
  induction line generalizing offset with
  | nil =>
    rcases ahead with start | rfl
    · obtain rfl : offset = 0 := Nat.le_zero.mp start
      exact newlinesBefore_zero _
    · cases offset <;> rfl
  | cons c line ih =>
    obtain ⟨notNewline, oneLine⟩ := List.forall_mem_cons.mp oneLine
    cases offset with
    | zero => rfl
    | succ offset =>
      have ahead' : offset + 1 - c.utf8Size ≤ width line ∨ below = [] := by
        refine ahead.imp_left fun within => ?_
        rw [width_cons] at within
        omega
      rw [List.cons_append, newlinesBefore, if_neg notNewline, ih oneLine ahead']

namespace LineIn

variable {text above line below : Text} {offset : Nat}

/-- The lines above number the line of an offset. -/
theorem lineNumber_of_onLine (isLine : LineIn text above line below)
    (onLine : OnLine above line below offset) :
    text.lineNumber offset = above.count '\n' + 1 := by
  obtain ⟨index, rfl⟩ := Nat.exists_eq_add_of_le onLine.behind
  have ahead : index ≤ line.width ∨ below = [] :=
    onLine.ahead.imp_left Nat.le_of_add_le_add_left
  rw [lineNumber, isLine.whole, List.append_assoc, newlinesBefore_append,
    newlinesBefore_of_oneLine isLine.oneLine ahead, Nat.add_zero]

/-- The bounds of an offset are those of its line, from behind the newline above to the newline at
its end. -/
theorem lineBounds_of_onLine (isLine : LineIn text above line below)
    (onLine : OnLine above line below offset) :
    text.lineBounds offset = (above.width, above.width + line.width) := by
  have behind := onLine.behind
  have ends (start : Nat) : lineBoundsFrom offset (above.width + line.width) start below =
      (start, above.width + line.width) := by
    cases below with
    | nil => rfl
    | cons c rest =>
      have ahead : ¬above.width + line.width < offset :=
        Nat.not_lt.mpr (onLine.ahead.resolve_right (List.cons_ne_nil c rest))
      rw [lineBoundsFrom, if_pos (isLine.closed c rfl), if_neg ahead]
  rw [lineBounds, isLine.whole, List.append_assoc]
  rcases List.eq_nil_or_concat above with rfl | ⟨upper, c, rfl⟩
  · rw [List.nil_append, lineBoundsFrom_line 0 0 below isLine.oneLine]
    exact ends 0
  · obtain rfl : c = '\n' := isLine.opened c (by simp)
    have wide : width (upper.concat '\n') = width upper + 1 := by
      rw [List.concat_eq_append, width_append]
      rfl
    rw [wide] at behind ends ⊢
    rw [List.concat_eq_append, List.append_assoc, List.singleton_append,
      lineBoundsFrom_above 0 0 upper _ (by omega), lineBoundsFrom_line _ _ below isLine.oneLine,
      Nat.zero_add]
    exact ends _

/-- The lines above are the first pieces of the text. -/
theorem drop_splitOn (isLine : LineIn text above line below) :
    (text.splitOn '\n').drop (above.count '\n') = (line ++ below).splitOn '\n' := by
  induction isLine using rec_above with
  | first => rfl
  | further upper rest text _ _ oneLine ih =>
    rw [splitOn_append_newline oneLine, List.count_append, count_of_oneLine oneLine, Nat.zero_add,
      List.count_cons_self, List.drop_succ_cons, ih]

/-- The line is the piece that the lines above number. -/
theorem getElem?_splitOn (isLine : LineIn text above line below) :
    (text.splitOn '\n')[above.count '\n']? = some line := by
  have first : ((line ++ below).splitOn '\n').head? = some line := by
    cases below with
    | nil => rw [List.append_nil, splitOn_line isLine.oneLine]; rfl
    | cons c rest =>
      obtain rfl : c = '\n' := isLine.closed c rfl
      rw [splitOn_append_newline isLine.oneLine]
      rfl
  rw [← isLine.drop_splitOn, List.head?_drop] at first
  exact first

end LineIn

/-- Every offset is on a line, even one beyond the text, which is on the last one. The induction
takes one line after the other. -/
theorem exists_onLine (text : Text) (offset : Nat) :
    ∃ above line below, LineIn text above line below ∧ OnLine above line below offset := by
  induction text using lineInduction generalizing offset with
  | last line oneLine =>
    exact ⟨[], line, [], ⟨by simp, by simp, oneLine, by simp⟩, Nat.zero_le _, .inr rfl⟩
  | further line rest oneLine ih =>
    rcases Nat.lt_or_ge line.width offset with behind | here
    · obtain ⟨above, line', below, isLine, onLine⟩ :=
        ih (offset - (line.width + 1))
      have narrow : '\n'.utf8Size = 1 := rfl
      have wide : width (line ++ '\n' :: above) = width line + 1 + width above := by
        rw [width_append, width_cons, narrow, Nat.add_assoc]
      obtain ⟨behind', ahead⟩ := onLine
      refine ⟨line ++ '\n' :: above, line', below, isLine.below_line line, ?_, ?_⟩
      · omega
      · exact ahead.imp_left fun within => by omega
    · exact ⟨[], line, '\n' :: rest, ⟨by simp, by simp, oneLine, by simp⟩, Nat.zero_le _,
        .inl (by simpa using here)⟩

/-- A newline stands in front of a line, or nothing. -/
theorem LineIn.byteAt?_start {text above line below : Text}
    (isLine : LineIn text above line below) :
    above.width = 0 ∨ text.byteAt? (above.width - 1) = some '\n' := by
  rcases List.eq_nil_or_concat above with rfl | ⟨upper, c, rfl⟩
  · exact .inl rfl
  · obtain rfl : c = '\n' := isLine.opened c (by simp)
    have before : width (upper.concat '\n') - 1 = width upper := by
      rw [List.concat_eq_append, width_append]
      rfl
    have whole : text = upper ++ '\n' :: (line ++ below) := by simp [isLine.whole]
    rw [before, whole]
    exact .inr ((byteAt?_width_eq_some_iff upper _ rfl).mpr rfl)

/-! ### The lines below -/

/-- Trimming a text loses a blank at its end. -/
theorem trim_concat_of_isBlank (text : Text) {c : Char} (blank : isBlank c = true) :
    trim (text ++ [c]) = text.trim := by
  rw [trim, trim, trimStart, trimStart, List.dropWhile_append]
  split
  · rename_i nothing
    rw [List.isEmpty_iff.mp nothing, List.dropWhile_cons_of_pos blank, List.dropWhile_nil]
  · rw [trimEnd_concat, if_pos blank]

/-- Trimming takes away what ends a line too. -/
theorem trim_chomp (line : Text) : line.chomp.trim = line.trim := by
  rw [chomp, LineMarks.chomp]
  split
  · rename_i ends
    obtain ⟨front, rfl⟩ := List.getLast?_eq_some_iff.mp ends
    rw [List.dropLast_concat, trim_concat_of_isBlank front (by decide)]
  · rfl

/-- The first line with anything on it is the first piece with anything on it, trimmed. Carriage
returns at line ends make no difference. -/
theorem find?_trim_lines (text : Text) :
    (text.lines.map trim).find? (fun line => !line.isEmpty) =
      ((text.splitOn '\n').find? fun piece => !piece.all isBlank).map trim := by
  have solid (line : Text) : line.trim.isEmpty = line.all isBlank := by
    rw [Bool.eq_iff_iff, isEmpty_trim_iff, List.all_eq_true]
  induction text using lineInduction with
  | last line oneLine =>
    rw [splitOn_line oneLine]
    by_cases present : line = []
    · rw [present]
      rfl
    · rw [lines_last oneLine present, List.map_singleton, List.find?_singleton,
        List.find?_singleton, solid]
      split <;> rfl
  | further line rest oneLine ih =>
    rw [splitOn_append_newline oneLine, lines_line oneLine, List.map_cons, trim_chomp,
      List.find?_cons, List.find?_cons, solid, ih]
    cases line.all isBlank <;> rfl

/-- The next line with anything on it is the first such piece below the line of an offset. -/
theorem LineIn.nextLine?_of_onLine {text above line below : Text} {offset : Nat}
    (isLine : LineIn text above line below) (onLine : OnLine above line below offset) :
    text.nextLine? offset =
      (((text.splitOn '\n').drop (above.count '\n' + 1)).find? fun piece =>
        !piece.all isBlank).map trim := by
  have behind : text.from? (above.width + line.width) = some below := by
    rw [isLine.whole, ← width_append]
    exact from?_width _ _
  rw [nextLine?, isLine.lineBounds_of_onLine onLine, behind, ← List.tail_drop, isLine.drop_splitOn]
  cases below with
  | nil =>
    rw [List.append_nil, splitOn_line isLine.oneLine]
    rfl
  | cons c rest =>
    obtain rfl : c = '\n' := isLine.closed c rfl
    have first : lines ('\n' :: rest) = [] :: lines rest := @lines_line [] (by simp) rest
    rw [splitOn_append_newline isLine.oneLine, Option.bind_eq_bind, Option.bind_some, first]
    exact find?_trim_lines rest

/-! ### Places in order -/

/-- If a text is continued without a newline, then its last line is continued by the same
characters. -/
theorem lastLine_append {gap : Text} (oneLine : ∀ c ∈ gap, c ≠ '\n') (left : Text) :
    lastLine (left ++ gap) = left.lastLine ++ gap := by
  obtain ⟨unbroken, whole | ⟨above, whole⟩⟩ := left.lastLine_cases
  · rw [← whole] at unbroken ⊢
    exact lastLine_of_oneLine (List.forall_mem_append.mpr ⟨unbroken, oneLine⟩)
  · conv => lhs; rw [whole]
    rw [List.append_assoc, List.cons_append,
      lastLine_append_newline above (List.forall_mem_append.mpr ⟨unbroken, oneLine⟩)]

/-- A place further on is on a later line, or in a later column of the same line. -/
theorem lineNumber_columnNumber_lt {text : Text} {offset later : Nat} (place : text.Boundary offset)
    (place' : text.Boundary later) (ordered : offset < later) :
    text.lineNumber offset < text.lineNumber later ∨
      text.lineNumber offset = text.lineNumber later ∧
        text.columnNumber offset < text.columnNumber later := by
  obtain ⟨left, right, rfl, rfl⟩ := place
  obtain ⟨left', right', same, rfl⟩ := place'
  obtain ⟨gap, rfl, rfl⟩ := exists_gap_of_width_le same (Nat.le_of_lt ordered)
  rw [lineNumber_width, columnNumber_width, same, lineNumber_width, columnNumber_width,
    List.count_append]
  by_cases broken : '\n' ∈ gap
  · have positive : 0 < gap.count '\n' := List.count_pos_iff.mpr broken
    exact .inl (by omega)
  · have oneLine : ∀ c ∈ gap, c ≠ '\n' := fun c listed => ne_of_mem_of_not_mem listed broken
    have present : 0 < gap.length := by
      apply List.length_pos_of_ne_nil
      rintro rfl
      simp at ordered
    rw [count_of_oneLine oneLine, lastLine_append oneLine, List.length_append]
    exact .inr ⟨rfl, by omega⟩

/-- Over the places between characters, lines and columns grow as the offsets do, so that a place
is known by them. Every offset, or the end of the text for one past it, lies between the bounds of
its line. These are the ends of the text or next to a newline, and the text between them has no
newline; it is the piece of the text that the line numbers. All offsets between the bounds are on
that line, and the next line is the first later piece, trimmed, that is not all blank. -/
theorem lines_and_columns_of_offsets (text : Text) :
    (∀ offset later, text.Boundary offset → text.Boundary later → offset < later →
        text.lineNumber offset < text.lineNumber later ∨
          text.lineNumber offset = text.lineNumber later ∧
            text.columnNumber offset < text.columnNumber later) ∧
      (∀ offset other, text.Boundary offset → text.Boundary other →
        text.lineNumber offset = text.lineNumber other →
        text.columnNumber offset = text.columnNumber other → offset = other) ∧
      ∀ offset, ∃ start stop line, text.lineBounds offset = (start, stop) ∧
        start ≤ min offset text.width ∧ min offset text.width ≤ stop ∧
        text.slice? start stop = some line ∧ '\n' ∉ line ∧
        (start = 0 ∨ text.byteAt? (start - 1) = some '\n') ∧
        (stop = text.width ∨ text.byteAt? stop = some '\n') ∧
        (∀ other, start ≤ other → other ≤ stop →
          text.lineNumber other = text.lineNumber offset) ∧
        (text.splitOn '\n')[text.lineNumber offset - 1]? = some line ∧
        text.nextLine? offset =
          (((text.splitOn '\n').drop (text.lineNumber offset)).find? fun piece =>
            !piece.all isBlank).map trim := by
  refine ⟨fun _ _ => lineNumber_columnNumber_lt, ?_, ?_⟩
  · intro offset other place place' sameLine sameColumn
    rcases Nat.lt_trichotomy offset other with before | same | behind
    · have later := lineNumber_columnNumber_lt place place' before
      omega
    · exact same
    · have later := lineNumber_columnNumber_lt place' place behind
      omega
  · intro offset
    obtain ⟨above, line, below, isLine, onLine⟩ := text.exists_onLine offset
    have number := isLine.lineNumber_of_onLine onLine
    have total : text.width = above.width + line.width + below.width := by
      rw [isLine.whole, width_append, width_append]
    refine ⟨above.width, above.width + line.width, line, isLine.lineBounds_of_onLine onLine, ?_, ?_,
      ?_, fun listed => isLine.oneLine _ listed rfl, isLine.byteAt?_start, ?_, ?_, ?_, ?_⟩
    · have behind := onLine.behind
      omega
    · rcases onLine.ahead with ahead | rfl
      · omega
      · rw [width_nil] at total
        omega
    · rw [← width_append]
      exact isLine.slice?_lineBounds
    · by_cases last : below = []
      · rw [last, width_nil] at total
        exact .inl total.symm
      · rw [← width_append]
        exact .inr (isLine.byteAt?_stop.mpr last)
    · intro other behind ahead
      rw [number]
      exact isLine.lineNumber_of_onLine ⟨behind, .inl ahead⟩
    · rw [number, Nat.add_sub_cancel]
      exact isLine.getElem?_splitOn
    · rw [number]
      exact isLine.nextLine?_of_onLine onLine

/-- A text with a wide character, a carriage return and a blank line. The column of the second
offset counts the wide character once. -/
theorem lines_and_columns_of_wide_character :
    let text : Text := "é\r\n \nx".toList
    text.Boundary 0 ∧ text.Boundary 2 ∧
      (text.lineNumber 0 < text.lineNumber 2 ∨
        text.lineNumber 0 = text.lineNumber 2 ∧ text.columnNumber 0 < text.columnNumber 2) ∧
      text.nextLine? 1 = some ['x'] := by
  intro text
  have start : text.Boundary 0 := ⟨[], text, rfl, rfl⟩
  have place : text.Boundary 2 := ⟨['é'], "\r\n \nx".toList, by decide, by decide⟩
  obtain ⟨order, -, bounds⟩ := lines_and_columns_of_offsets text
  obtain ⟨-, -, -, -, -, -, -, -, -, -, -, -, next⟩ := bounds 1
  refine ⟨start, place, order 0 2 start place (by decide), ?_⟩
  rw [next]
  decide +kernel

end ScriptCheck.Text
