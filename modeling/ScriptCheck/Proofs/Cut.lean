import ScriptCheck.Text.Blank

/-!
# Cutting and trimming a text

Every cut is described by the pieces it leaves: they follow each other in the text, and
their widths are the offsets asked for. A cut that lies within the front of a text
does not see what follows that front, whether or not the cut exists; this is what keeps
an offset meaningful while the text behind it changes.

A trimmed text is followed by blank characters in the text it comes from, and unless it
is empty its last character is not blank.
-/

namespace ScriptCheck.Text

/-- The empty text takes no bytes. -/
@[simp] theorem width_nil : width [] = 0 := rfl

/-- A text takes the bytes of its first character and of the rest. -/
@[simp] theorem width_cons (c : Char) (rest : Text) : width (c :: rest) = c.utf8Size + width rest :=
  rfl

/-- Two texts in a row take the bytes of both. -/
@[simp] theorem width_append (front rest : Text) :
    width (front ++ rest) = width front + width rest := by
  induction front with
  | nil => simp
  | cons c front ih => simp [ih, Nat.add_assoc]

/-- The width does not depend on the order of the characters. -/
@[simp] theorem width_reverse (text : Text) : width text.reverse = width text := by
  induction text with
  | nil => rfl
  | cons c rest ih => simp [ih, Nat.add_comm]

/-- Only the empty text has no width. -/
theorem width_eq_zero_iff (text : Text) : width text = 0 ↔ text = [] := by
  cases text with
  | nil => simp
  | cons c rest =>
    have positive : 0 < c.utf8Size := c.utf8Size_pos
    simp only [width_cons, reduceCtorEq, iff_false]
    omega

/-- The pieces of a cut follow each other, and the first is as wide as the offset. -/
theorem splitAt?_eq_some_iff (text left right : Text) (offset : Nat) :
    text.splitAt? offset = some (left, right) ↔ text = left ++ right ∧ left.width = offset := by
  induction text generalizing left offset with
  | nil =>
    cases offset with
    | zero =>
      simp only [splitAt?, Option.some.injEq, Prod.mk.injEq, width_eq_zero_iff]
      constructor
      · rintro ⟨rfl, rfl⟩
        exact ⟨rfl, rfl⟩
      · rintro ⟨whole, rfl⟩
        exact ⟨rfl, by simpa using whole⟩
    | succ offset =>
      simp only [splitAt?, reduceCtorEq, false_iff, not_and]
      intro whole
      obtain ⟨rfl, -⟩ := List.append_eq_nil_iff.mp whole.symm
      simp
  | cons c rest ih =>
    have positive : 0 < c.utf8Size := c.utf8Size_pos
    cases offset with
    | zero =>
      simp only [splitAt?, Option.some.injEq, Prod.mk.injEq, width_eq_zero_iff]
      constructor
      · rintro ⟨rfl, rfl⟩
        exact ⟨rfl, rfl⟩
      · rintro ⟨whole, rfl⟩
        exact ⟨rfl, by simpa using whole⟩
    | succ offset =>
      cases left with
      | nil =>
        simp only [splitAt?, width_nil, Nat.right_eq_add, Nat.add_eq_zero_iff, Nat.succ_ne_self,
          and_false, iff_false]
        split <;> simp
      | cons d left =>
        simp only [splitAt?, List.cons_append, List.cons.injEq, width_cons]
        split
        · rename_i fits
          simp only [Option.map_eq_some_iff, Prod.exists, Prod.mk.injEq, List.cons.injEq]
          constructor
          · rintro ⟨front, back, found, ⟨rfl, rfl⟩, rfl⟩
            obtain ⟨rfl, wide⟩ := (ih front _).mp found
            exact ⟨⟨rfl, rfl⟩, by omega⟩
          · rintro ⟨⟨rfl, rfl⟩, wide⟩
            exact ⟨left, right, (ih left _).mpr ⟨rfl, by omega⟩, ⟨rfl, rfl⟩, rfl⟩
        · rename_i tooWide
          simp only [reduceCtorEq, false_iff, not_and]
          rintro ⟨rfl, -⟩
          omega

/-- A text can be cut where one of its fronts ends. -/
@[simp] theorem splitAt?_width (left right : Text) :
    (left ++ right).splitAt? left.width = some (left, right) :=
  (splitAt?_eq_some_iff _ _ _ _).mpr ⟨rfl, rfl⟩

/-- A cut within a front does not see what follows the front, which is just carried along behind the
cut. -/
theorem splitAt?_append (front rest : Text) (offset : Nat) (inside : offset ≤ front.width) :
    (front ++ rest).splitAt? offset =
      (front.splitAt? offset).map fun (left, right) => (left, right ++ rest) := by
  induction front generalizing offset with
  | nil =>
    obtain rfl : offset = 0 := by simpa using inside
    simp [splitAt?]
  | cons c front ih =>
    cases offset with
    | zero => simp [splitAt?]
    | succ offset =>
      simp only [splitAt?, List.cons_append]
      split
      · have shorter : offset + 1 - c.utf8Size ≤ width front := by
          simp only [width_cons] at inside
          omega
        simp [ih _ shorter, Function.comp_def]
      · rfl

/-- The three pieces around a span have the widths asked for. -/
theorem cut?_eq_some_iff (text left middle right : Text) (offset length : Nat) :
    text.cut? offset length = some (left, middle, right) ↔
      text = left ++ middle ++ right ∧ left.width = offset ∧ middle.width = length := by
  simp only [cut?, Option.bind_eq_bind, Option.bind_eq_some_iff, Prod.exists, Option.pure_def,
    Option.some.injEq, Prod.mk.injEq, splitAt?_eq_some_iff]
  constructor
  · rintro ⟨front, rest, ⟨rfl, wide⟩, inner, back, ⟨rfl, wide'⟩, rfl, rfl, rfl⟩
    exact ⟨by simp, wide, wide'⟩
  · rintro ⟨rfl, wide, wide'⟩
    exact ⟨left, middle ++ right, ⟨by simp, wide⟩, middle, right, ⟨rfl, wide'⟩, rfl, rfl, rfl⟩

/-- The text of a span is what lies between a front and a rest of fitting widths. -/
theorem slice?_eq_some_iff (text middle : Text) (start stop : Nat) :
    text.slice? start stop = some middle ↔
      ∃ left right, text = left ++ middle ++ right ∧ left.width = start ∧
        start + middle.width = stop := by
  simp only [slice?]
  split
  · rename_i ordered
    simp only [Option.map_eq_some_iff, Prod.exists, cut?_eq_some_iff]
    constructor
    · rintro ⟨left, _, right, ⟨whole, wide, wide'⟩, rfl⟩
      exact ⟨left, right, whole, wide, by omega⟩
    · rintro ⟨left, right, whole, wide, wide'⟩
      exact ⟨left, middle, right, ⟨whole, wide, by omega⟩, rfl⟩
  · rename_i backwards
    simp only [reduceCtorEq, false_iff, not_exists]
    rintro left right ⟨-, -, wide⟩
    omega

/-- The text of a span within a front does not depend on what follows the front. -/
theorem slice?_append (front rest : Text) (start stop : Nat) (inside : stop ≤ front.width) :
    (front ++ rest).slice? start stop = front.slice? start stop := by
  ext middle
  simp only [slice?_eq_some_iff]
  constructor
  · rintro ⟨left, right, whole, wide, wide'⟩
    have cut : (front ++ rest).splitAt? stop = some (left ++ middle, right) :=
      (splitAt?_eq_some_iff _ _ _ _).mpr ⟨whole, by simp; omega⟩
    rw [splitAt?_append front rest stop inside, Option.map_eq_some_iff] at cut
    obtain ⟨⟨inner, back⟩, found, same⟩ := cut
    obtain ⟨whole', -⟩ := (splitAt?_eq_some_iff _ _ _ _).mp found
    simp only [Prod.mk.injEq] at same
    obtain ⟨rfl, -⟩ := same
    exact ⟨left, back, whole', wide, wide'⟩
  · rintro ⟨left, right, rfl, wide, wide'⟩
    exact ⟨left, right ++ rest, by simp, wide, wide'⟩

/-- The text behind an offset is what follows a front so wide. -/
theorem from?_eq_some_iff (text right : Text) (offset : Nat) :
    text.from? offset = some right ↔ ∃ left, text = left ++ right ∧ left.width = offset := by
  simp [from?, Option.map_eq_some_iff, splitAt?_eq_some_iff]

/-- The text before an offset is a front of that width. -/
theorem upTo?_eq_some_iff (text left : Text) (offset : Nat) :
    text.upTo? offset = some left ↔ ∃ right, text = left ++ right ∧ left.width = offset := by
  simp [upTo?, Option.map_eq_some_iff, splitAt?_eq_some_iff]

/-- The text before the end of a front is that front. -/
@[simp] theorem upTo?_width (left right : Text) : (left ++ right).upTo? left.width = some left := by
  simp [upTo?]

/-- The text behind the end of a front is what follows it. -/
@[simp] theorem from?_width (left right : Text) :
    (left ++ right).from? left.width = some right := by
  simp [from?]

/-- Of two fronts of one text the wider goes on behind the other. -/
theorem exists_gap_of_width_le {front rest front' rest' : Text}
    (same : front ++ rest = front' ++ rest') (narrower : front.width ≤ front'.width) :
    ∃ gap, front' = front ++ gap ∧ rest = gap ++ rest' := by
  rcases List.append_eq_append_iff.mp same with ⟨gap, longer, split⟩ | ⟨gap, shorter, split⟩
  · exact ⟨gap, longer, split⟩
  · have empty : gap = [] := by
      rw [shorter, width_append] at narrower
      exact (width_eq_zero_iff gap).mp (by omega)
    subst empty
    exact ⟨[], by simpa using shorter.symm, by simpa using split.symm⟩

/-- A text has one cut of a width. -/
theorem append_inj_of_width {front rest front' rest' : Text}
    (same : front ++ rest = front' ++ rest') (wide : front.width = front'.width) :
    front = front' ∧ rest = rest' := by
  have cut := (splitAt?_eq_some_iff (front ++ rest) front rest front.width).mpr ⟨rfl, rfl⟩
  have cut' := (splitAt?_eq_some_iff (front ++ rest) front' rest' front.width).mpr ⟨same, wide.symm⟩
  simpa using cut.symm.trans cut'

/-- A character of a text stands behind a given front or in it. -/
theorem append_eq_append_cons {front rest left right : Text} {c : Char}
    (same : front ++ rest = left ++ c :: right) :
    (∃ gap, left = front ++ gap ∧ rest = gap ++ c :: right) ∨
      ∃ back, front = left ++ c :: back ∧ right = back ++ rest := by
  rcases List.append_eq_append_iff.mp same with ⟨gap, split, behind⟩ | ⟨gap, split, behind⟩
  · exact .inl ⟨gap, split, behind⟩
  · cases gap with
    | nil => exact .inl ⟨[], by simpa using split.symm, by simpa using behind.symm⟩
    | cons d back =>
      obtain ⟨rfl, rfl⟩ := List.cons.inj behind
      exact .inr ⟨back, split, rfl⟩

/-- Every byte is one of a character, which starts at most so many bytes before. The induction is on
the text. -/
theorem exists_char_of_lt {text : Text} {offset : Nat} (inside : offset < text.width) :
    ∃ (left : Text) (c : Char) (right : Text) (byte : Nat), text = left ++ c :: right ∧
      byte < c.utf8Size ∧ offset = left.width + byte := by
  induction text generalizing offset with
  | nil => simp at inside
  | cons c rest ih =>
    rcases Nat.lt_or_ge offset c.utf8Size with here | behind
    · exact ⟨[], c, rest, offset, rfl, here, by simp⟩
    · have inside' : offset - c.utf8Size < Text.width rest := by
        rw [width_cons] at inside
        omega
      obtain ⟨left, d, right, byte, rfl, here, place⟩ := ih inside'
      refine ⟨c :: left, d, right, byte, rfl, here, ?_⟩
      rw [width_cons]
      omega

/-- What a trimmed text has lost at its end is blank. -/
theorem exists_blanks_of_trimEnd (text : Text) :
    ∃ blanks, text = text.trimEnd ++ blanks ∧ ∀ c ∈ blanks, isBlank c = true := by
  refine ⟨(text.reverse.takeWhile isBlank).reverse, ?_, ?_⟩
  · rw [trimEnd, ← List.reverse_append, List.takeWhile_append_dropWhile, List.reverse_reverse]
  · intro c listed
    exact List.all_eq_true.mp List.all_takeWhile c (List.mem_reverse.mp listed)

/-- A trimmed text is empty or ends in a solid character. -/
theorem trimEnd_eq_nil_or_concat (text : Text) :
    text.trimEnd = [] ∨ ∃ front c, text.trimEnd = front ++ [c] ∧ isBlank c = false := by
  cases rest : text.reverse.dropWhile isBlank with
  | nil => exact .inl (by simp [trimEnd, rest])
  | cons c rest' =>
    refine .inr ⟨rest'.reverse, c, by simp [trimEnd, rest], ?_⟩
    have kept := List.head?_dropWhile_not isBlank text.reverse
    simpa [rest] using kept

/-- Only blanks are lost at the end of a text. -/
theorem trimEnd_append {front blanks : Text} (blank : ∀ c ∈ blanks, isBlank c = true)
    (ends : front.getLast?.any isBlank = false) (present : front ≠ []) :
    trimEnd (front ++ blanks) = front := by
  obtain ⟨front, last, rfl⟩ := (List.eq_nil_or_concat front).resolve_left present
  rw [List.concat_eq_append] at ends ⊢
  have sharp : isBlank last = false := by simpa using ends
  rw [trimEnd, List.reverse_append,
    List.dropWhile_append_of_pos fun c listed => blank c (List.mem_reverse.mp listed)]
  simp [sharp]

/-- Trimming looks at the last character first. -/
theorem trimEnd_concat (text : Text) (c : Char) :
    trimEnd (text ++ [c]) = if isBlank c then text.trimEnd else text ++ [c] := by
  cases blank : isBlank c <;> simp [trimEnd, blank]

/-- Nothing is left of a trimmed text exactly if it is blank. Both ends are trimmed, but one of them
would do. -/
theorem isEmpty_trim_iff (text : Text) :
    text.trim.isEmpty = true ↔ ∀ c ∈ text, isBlank c = true := by
  rw [List.isEmpty_iff]
  constructor
  · intro nothing c listed
    obtain ⟨blanks, split, blank⟩ := exists_blanks_of_trimEnd text.trimStart
    have rest : text.dropWhile isBlank = blanks := by
      rw [trim] at nothing
      rwa [nothing] at split
    rw [← List.takeWhile_append_dropWhile (p := isBlank) (l := text), rest] at listed
    rcases List.mem_append.mp listed with ahead | behind
    · exact List.all_eq_true.mp List.all_takeWhile c ahead
    · exact blank c behind
  · intro blank
    have nothing := @List.dropWhile_append_of_pos _ isBlank text [] blank
    rw [List.append_nil] at nothing
    rw [trim, trimStart, nothing]
    rfl

/-- A text ends in a character exactly if that is its last one. -/
@[simp] theorem endsWith_concat (front : Text) (c d : Char) :
    Text.endsWith (front ++ [c]) [d] = (c == d) := by
  rw [Bool.eq_iff_iff, endsWith, List.isSuffixOf_iff_suffix, beq_iff_eq]
  constructor
  · rintro ⟨front', same⟩
    obtain ⟨-, last⟩ := List.append_inj' same rfl
    simpa using last.symm
  · rintro rfl
    exact ⟨front, rfl⟩

end ScriptCheck.Text
