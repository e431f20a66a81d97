import ScriptCheck.Proofs.Cut
import ScriptCheck.Text.Position

/-!
# Lines and columns, by what stands in front

The line, the column and the line bounds of an offset are found by walking over the
text. At an offset between two characters they are known from the two parts of the text:
the line from the newlines in front, the column from the characters behind the last of
these newlines, and where the line ends from the next newline.

An offset inside a character or past the end of the text has no two such parts and is
not treated here.
-/

namespace ScriptCheck.Text

/-- What a text has in front of its first newline, or all of it. -/
def firstLine (text : Text) : Text := text.takeWhile (· ≠ '\n')

/-- What a text has behind its last newline, or all of it. -/
def lastLine (text : Text) : Text := (firstLine text.reverse).reverse

/-- A stretch without newlines at the start is on the first line. -/
theorem firstLine_append (line rest : Text) (oneLine : ∀ c ∈ line, c ≠ '\n') :
    (line ++ rest).firstLine = line ++ rest.firstLine :=
  List.takeWhile_append_of_pos (by simpa using oneLine)

/-- A text without newlines is its own first line. -/
theorem firstLine_of_oneLine {text : Text} (oneLine : ∀ c ∈ text, c ≠ '\n') :
    text.firstLine = text := by
  simpa [firstLine] using firstLine_append text [] oneLine

/-- A text without newlines is its own last line. -/
theorem lastLine_of_oneLine {text : Text} (oneLine : ∀ c ∈ text, c ≠ '\n') :
    text.lastLine = text := by
  rw [lastLine, firstLine_of_oneLine (by simpa using oneLine), List.reverse_reverse]

/-- Behind a newline the last line starts afresh. -/
theorem lastLine_append_newline (above : Text) {line : Text} (oneLine : ∀ c ∈ line, c ≠ '\n') :
    (above ++ '\n' :: line).lastLine = line := by
  have reversed : (above ++ '\n' :: line).reverse = line.reverse ++ '\n' :: above.reverse := by simp
  rw [lastLine, reversed, firstLine_append _ _ (by simpa using oneLine)]
  simp [firstLine]

/-- A text is one line, or a newline stands in front of its last line. In both cases the last line
has no newline. -/
theorem lastLine_cases (text : Text) :
    (∀ c ∈ text.lastLine, c ≠ '\n') ∧
      (text = text.lastLine ∨ ∃ above, text = above ++ '\n' :: text.lastLine) := by
  induction text with
  | nil => exact ⟨by simp [lastLine, firstLine], .inl rfl⟩
  | cons c rest ih =>
    obtain ⟨oneLine, whole | ⟨above, whole⟩⟩ := ih
    · rw [← whole] at oneLine
      by_cases newline : c = '\n'
      · subst newline
        have last : lastLine ('\n' :: rest) = rest := lastLine_append_newline [] oneLine
        rw [last]
        exact ⟨oneLine, .inr ⟨[], rfl⟩⟩
      · have oneLine' : ∀ d ∈ c :: rest, d ≠ '\n' := by
          simpa [newline] using oneLine
        rw [lastLine_of_oneLine oneLine']
        exact ⟨oneLine', .inl rfl⟩
    · have last : lastLine (c :: rest) = lastLine rest := by
        rw [whole, ← List.cons_append, lastLine_append_newline _ oneLine, ← whole]
      rw [last]
      exact ⟨oneLine, .inr ⟨c :: above, by rw [List.cons_append, ← whole]⟩⟩

/-- The newlines in front of an offset behind a part are those of the part and those behind it. -/
theorem newlinesBefore_append (left right : Text) (offset : Nat) :
    (left ++ right).newlinesBefore (left.width + offset) =
      left.count '\n' + right.newlinesBefore offset := by
  induction left with
  | nil => simp
  | cons c left ih =>
    obtain ⟨bytes, size⟩ : ∃ bytes, c.utf8Size = bytes + 1 :=
      Nat.exists_eq_succ_of_ne_zero (Nat.ne_of_gt c.utf8Size_pos)
    have total : width (c :: left) + offset = bytes + width left + offset + 1 := by
      rw [width_cons, size]
      omega
    have remaining : bytes + width left + offset + 1 - c.utf8Size = width left + offset := by omega
    rw [List.cons_append, total, newlinesBefore, remaining, ih, List.count_cons]
    simp only [beq_iff_eq]
    omega

/-- No newline is in front of the start of a text. -/
theorem newlinesBefore_zero (text : Text) : text.newlinesBefore 0 = 0 := by
  cases text <;> rfl

/-- The newlines in front of an offset between two parts are those of the first part. -/
theorem lineNumber_width (left right : Text) :
    (left ++ right).lineNumber left.width = left.count '\n' + 1 := by
  have before := newlinesBefore_append left right 0
  rw [newlinesBefore_zero, Nat.add_zero, Nat.add_zero] at before
  rw [lineNumber, before]

/-! ### Where the line of an offset starts and ends -/

/-- From the offset on, a walk goes to the next newline. -/
theorem lineBoundsFrom_ahead {offset position : Nat} (start : Nat) (passed : offset ≤ position)
    (right : Text) :
    lineBoundsFrom offset position start right = (start, position + right.firstLine.width) := by
  induction right generalizing position with
  | nil => rfl
  | cons c right ih =>
    rw [lineBoundsFrom]
    by_cases newline : c = '\n'
    · rw [if_pos newline, if_neg (Nat.not_lt.mpr passed), newline]
      rfl
    · have first : firstLine (c :: right) = c :: firstLine right :=
        List.takeWhile_cons_of_pos (by simpa using newline)
      rw [if_neg newline, ih (Nat.le_trans passed (Nat.le_add_right _ _)), first,
        width_cons, Nat.add_assoc]

/-- A walk goes over a line without a newline. -/
theorem lineBoundsFrom_line {offset : Nat} (position start : Nat) {line : Text} (right : Text)
    (oneLine : ∀ c ∈ line, c ≠ '\n') :
    lineBoundsFrom offset position start (line ++ right) =
      lineBoundsFrom offset (position + line.width) start right := by
  induction line generalizing position with
  | nil => rfl
  | cons c line ih =>
    rw [List.cons_append, lineBoundsFrom, if_neg (oneLine c (by simp)),
      ih _ fun d listed => oneLine d (by simp [listed]), width_cons, Nat.add_assoc]

/-- On the way to the offset, a walk starts a new line behind each newline, so that what is above
does not matter. -/
theorem lineBoundsFrom_above {offset : Nat} (position start : Nat) (above right : Text)
    (ahead : position + above.width < offset) :
    lineBoundsFrom offset position start (above ++ '\n' :: right) =
      lineBoundsFrom offset (position + above.width + 1) (position + above.width + 1) right := by
  induction above generalizing position start with
  | nil =>
    rw [width_nil, Nat.add_zero] at ahead ⊢
    rw [List.nil_append, lineBoundsFrom, if_pos rfl, if_pos ahead]
  | cons c above ih =>
    rw [width_cons, ← Nat.add_assoc] at ahead ⊢
    rw [List.cons_append, lineBoundsFrom]
    by_cases newline : c = '\n'
    · subst newline
      have narrow : '\n'.utf8Size = 1 := rfl
      rw [narrow] at ahead ⊢
      rw [if_pos rfl, if_pos (by omega), ih _ _ ahead]
    · rw [if_neg newline, ih _ _ ahead]

/-- The line of an offset between two parts is what the first part has behind its last
newline and the second in front of its first. -/
theorem lineBounds_width (left right : Text) :
    (left ++ right).lineBounds left.width =
      (left.width - left.lastLine.width, left.width + right.firstLine.width) := by
  rw [lineBounds]
  obtain ⟨oneLine, whole | ⟨above, whole⟩⟩ := left.lastLine_cases
  · rw [← whole] at oneLine ⊢
    rw [lineBoundsFrom_line 0 0 right oneLine, Nat.zero_add,
      lineBoundsFrom_ahead 0 (Nat.le_refl _), Nat.sub_self]
  · have narrow : '\n'.utf8Size = 1 := rfl
    have total : left.width = Text.width above + 1 + left.lastLine.width := by
      conv => lhs; rw [whole]
      rw [width_append, width_cons, narrow, Nat.add_assoc]
    have start : left.width - left.lastLine.width = Text.width above + 1 := by omega
    have split : left ++ right = above ++ '\n' :: (left.lastLine ++ right) := by
      conv => lhs; rw [whole]
      rw [List.append_assoc, List.cons_append]
    rw [start, split, lineBoundsFrom_above 0 0 above _ (by omega), Nat.zero_add,
      lineBoundsFrom_line _ _ right oneLine, ← total, lineBoundsFrom_ahead _ (Nat.le_refl _)]

/-- The text of the line in front of an offset. -/
theorem exists_append_lastLine (text : Text) :
    ∃ above, text = above ++ text.lastLine ∧
      Text.width above = text.width - text.lastLine.width := by
  obtain ⟨above, whole⟩ : ∃ above, text = above ++ text.lastLine := by
    obtain ⟨-, whole | ⟨above, whole⟩⟩ := text.lastLine_cases
    · exact ⟨[], whole⟩
    · exact ⟨above ++ ['\n'], by simpa using whole⟩
  refine ⟨above, whole, ?_⟩
  conv => rhs; rw [whole]
  rw [width_append, ← whole, Nat.add_sub_cancel]

/-- A column counts the line's characters in front of the offset. -/
theorem columnNumber_width (left right : Text) :
    (left ++ right).columnNumber left.width = left.lastLine.length + 1 := by
  obtain ⟨above, whole, wide⟩ := left.exists_append_lastLine
  have passed : (left ++ right).slice? (left.width - left.lastLine.width) left.width =
      some left.lastLine := by
    refine (slice?_eq_some_iff _ _ _ _).mpr ⟨above, right, by rw [← whole], wide, ?_⟩
    rw [← wide, ← width_append, ← whole]
  rw [columnNumber, lineBounds_width, passed]

/-- The lines behind an offset start with the rest of its own. -/
theorem nextLine?_width (left right : Text) :
    (left ++ right).nextLine? left.width =
      (((lines (right.dropWhile (· ≠ '\n'))).drop 1).map trim).find? fun line => !line.isEmpty := by
  have cut : (left ++ right).from? (left.width + right.firstLine.width) =
      some (right.dropWhile (· ≠ '\n')) := by
    refine (from?_eq_some_iff _ _ _).mpr ⟨left ++ right.firstLine, ?_, width_append _ _⟩
    rw [List.append_assoc, firstLine, List.takeWhile_append_dropWhile]
  rw [nextLine?, lineBounds_width, cut]
  rfl

end ScriptCheck.Text
