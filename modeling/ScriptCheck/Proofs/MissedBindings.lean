import ScriptCheck.Proofs.Bindings

/-!
# Bindings that are missed

For a name that a style does not bind there is a text that declares the name in this style,
calls it on the next line, and has the call reported. The name stands at two places of the
text only, so each way of binding it fails at one of the two: what stands beside the name
there, blanks aside, is not what the search asks for.

Together with the declarations that are seen, this tells for each style which names are safe
in it.
-/

namespace ScriptCheck

open Pattern Phrase

namespace Call

/-! ### A text with a missed declaration -/

namespace Style

/-- What a declaration in a style has in front of the name. -/
def opening : Style → Text
  | classHead => "class".toList
  | importList => "import \x7b".toList
  | destructuring => "const \x7b".toList
  | functionHead | functionValue | parameter => []

/-- What a declaration in a style has behind the name. -/
def closing : Style → Text
  | classHead => "\x7b\x7d\n".toList
  | importList => "\x7d from 'm';\n".toList
  | destructuring => "\x7d = m;\n".toList
  | functionHead | functionValue | parameter => []

/-- The styles that look for a word edge beside the name. -/
def edged : List Style := [classHead, importList, destructuring]

/-- Classes, imports and destructuring look for an edge. -/
theorem mem_edged {style : Style} :
    style ∈ edged ↔ style = classHead ∨ style = importList ∨ style = destructuring := by
  simp [edged]

/-- A style that misses a name looks for an edge beside a dollar sign. -/
theorem mem_edged_of_binds {style : Style} {name : Text} (missed : style.binds name = false) :
    style ∈ edged ∧ (name.getLast? = some '$' ∨
      style = destructuring ∧ name.head? = some '$') := by
  cases style with
  | functionHead => cases missed
  | functionValue => cases missed
  | parameter => cases missed
  | classHead => exact ⟨by decide, .inl (by simpa [binds] using missed)⟩
  | importList => exact ⟨by decide, .inl (by simpa [binds] using missed)⟩
  | destructuring =>
    refine ⟨by decide, ?_⟩
    by_cases last : name.getLast? = some '$'
    · exact .inl last
    · exact .inr ⟨rfl, by simpa [binds, last] using missed⟩

end Style

/-- What stands in front of a call of the name. A name that starts with a dollar sign is read
as a name only behind a word character; this one is no identifier character. -/
def lead (name : Text) : Text := if name.head? = some '$' then ['é'] else []

/-- What stands in front of the name where it is called. -/
def aheadOfCall (style : Style) (name : Text) : Text :=
  style.opening ++ ' ' :: (name ++ (' ' :: style.closing ++ lead name))

/-- A declaration of a name and, on the next line, a call. -/
def calling (style : Style) (name : Text) : Text :=
  aheadOfCall style name ++ (name ++ "();\n".toList)

/-! ### Where the name stands -/

/-- A name stands in a text that starts with it at the start, or behind it. -/
theorem place_in_name {name after ahead behind : Text}
    (parts : ∀ c ∈ name, continuesName c = true) (ends : Parted after.head?)
    (same : name ++ after = ahead ++ (name ++ behind)) :
    ahead = [] ∧ behind = after ∨
      ∃ more, ahead = name ++ more ∧ after = more ++ (name ++ behind) := by
  rcases List.append_eq_append_iff.mp same with ⟨more, rfl, split⟩ | ⟨inner, shape, split⟩
  · exact .inr ⟨more, rfl, split⟩
  · rcases List.append_eq_append_iff.mp split with ⟨more, longer, rfl⟩ | ⟨more, longer, split'⟩
    · have short := congrArg List.length shape
      have long := congrArg List.length longer
      simp only [List.length_append] at short long
      have empty : ahead = [] := List.length_eq_zero_iff.mp (by omega)
      have empty' : more = [] := List.length_eq_zero_iff.mp (by omega)
      exact .inl ⟨empty, by simp [empty']⟩
    · cases more with
      | nil =>
        have short := congrArg List.length shape
        have long := congrArg List.length longer
        simp only [List.length_append, List.length_nil] at short long
        exact .inl ⟨List.length_eq_zero_iff.mp (by omega), by simp [split']⟩
      | cons c more =>
        have part := parts c (by simp [longer])
        rw [ends c (by simp [split'])] at part
        cases part

/-- A text without a name's first character holds no start of it. -/
theorem place_behind {front text name ahead behind : Text} {c : Char}
    (first : name.head? = some c) (absent : c ∉ front)
    (same : front ++ text = ahead ++ (name ++ behind)) :
    ∃ inner, ahead = front ++ inner ∧ text = inner ++ (name ++ behind) := by
  rcases List.append_eq_append_iff.mp same with ⟨inner, rfl, split⟩ | ⟨inner, rfl, split⟩
  · exact ⟨inner, rfl, split⟩
  · cases inner with
    | nil => exact ⟨[], by simp, by simpa using split.symm⟩
    | cons d inner =>
      have same := congrArg List.head? split
      rw [List.head?_append, first] at same
      obtain rfl : c = d := by simpa using same
      exact absurd (by simp) absent

/-- A name that a text has twice, and otherwise not even its first character, stands nowhere
else in it. -/
theorem places {front name middle back ahead behind : Text} {c : Char}
    (parts : ∀ c ∈ name, continuesName c = true) (first : name.head? = some c)
    (absent : c ∉ front ∧ c ∉ middle ∧ c ∉ back)
    (ends : Parted (middle ++ (name ++ back)).head?) (ends' : Parted back.head?)
    (same : front ++ (name ++ (middle ++ (name ++ back))) = ahead ++ (name ++ behind)) :
    ahead = front ∧ behind = middle ++ (name ++ back) ∨
      ahead = front ++ (name ++ middle) ∧ behind = back := by
  obtain ⟨inner, rfl, read⟩ := place_behind first absent.1 same
  rcases place_in_name parts ends read with ⟨rfl, rfl⟩ | ⟨more, rfl, read'⟩
  · exact .inl ⟨by simp, rfl⟩
  · obtain ⟨inner', rfl, read''⟩ := place_behind first absent.2.1 read'
    rcases place_in_name parts ends' read'' with ⟨rfl, rfl⟩ | ⟨more', rfl, rfl⟩
    · exact .inr ⟨by simp, rfl⟩
    · have listed : c ∈ name := List.mem_of_head? first
      exact absurd (by simp [listed]) absent.2.2

/-- The same with the last character of the name: a text that holds the name twice, and its last
character nowhere else, has it at two places only. -/
theorem places_of_getLast? {front name middle back ahead behind : Text} {c : Char}
    (parts : ∀ c ∈ name, continuesName c = true) (last : name.getLast? = some c)
    (absent : c ∉ front ∧ c ∉ middle ∧ c ∉ back) (present : middle ≠ [])
    (starts : Parted front.getLast?) (starts' : Parted middle.getLast?)
    (same : front ++ (name ++ (middle ++ (name ++ back))) = ahead ++ (name ++ behind)) :
    ahead = front ∧ behind = middle ++ (name ++ back) ∨
      ahead = front ++ (name ++ middle) ∧ behind = back := by
  have parts' : ∀ c ∈ name.reverse, continuesName c = true := by simpa using parts
  have first : name.reverse.head? = some c := by rw [List.head?_reverse, last]
  have absent' : c ∉ back.reverse ∧ c ∉ middle.reverse ∧ c ∉ front.reverse := by
    simpa [and_comm, and_assoc] using absent
  have ends : Parted (middle.reverse ++ (name.reverse ++ front.reverse)).head? :=
    starts'.reverse_append fun empty => absurd empty present
  have ends' : Parted front.reverse.head? := by rwa [List.head?_reverse]
  have reversed : back.reverse ++ (name.reverse ++ (middle.reverse ++ (name.reverse ++
      front.reverse))) = behind.reverse ++ (name.reverse ++ ahead.reverse) := by
    simpa only [List.reverse_append, List.append_assoc] using congrArg List.reverse same
  rcases places parts' first absent' ends ends' reversed with ⟨read, read'⟩ | ⟨read, read'⟩
  · refine .inr ⟨List.reverse_injective ?_, List.reverse_injective read⟩
    rw [read']
    simp
  · refine .inl ⟨List.reverse_injective read', List.reverse_injective ?_⟩
    rw [read]
    simp

/-- The name aside, the text has no dollar sign. -/
theorem dollar_not_mem {style : Style} (name : Text) (edged : style ∈ Style.edged) :
    '$' ∉ style.opening ++ [' '] ∧ '$' ∉ ' ' :: style.closing ++ lead name ∧
      '$' ∉ "();\n".toList := by
  have absent : '$' ∉ lead name := by
    rw [lead]
    split <;> decide
  have absent' : '$' ∉ style.opening ++ [' '] ∧ '$' ∉ style.closing := by
    rcases Style.mem_edged.mp edged with rfl | rfl | rfl <;> decide
  exact ⟨absent'.1, by simp [absent, absent'.2], by decide⟩

/-- The texts around the name, where it is declared and where it is called. There is no third
place. -/
theorem calling_places {style : Style} {name ahead behind : Text} (named : isName name = true)
    (missed : style.binds name = false)
    (same : calling style name = ahead ++ (name ++ behind)) :
    ahead = style.opening ++ [' '] ∧
        behind = ' ' :: style.closing ++ lead name ++ (name ++ "();\n".toList) ∨
      ahead = aheadOfCall style name ∧ behind = "();\n".toList := by
  obtain ⟨edged, ends⟩ := Style.mem_edged_of_binds missed
  have parts := continuesName_of_isName named
  have around := dollar_not_mem name edged
  have call : aheadOfCall style name =
      style.opening ++ [' '] ++ (name ++ (' ' :: style.closing ++ lead name)) := by
    simp [aheadOfCall]
  have same' : style.opening ++ [' '] ++ (name ++ ((' ' :: style.closing ++ lead name) ++
      (name ++ "();\n".toList))) = ahead ++ (name ++ behind) := by
    simpa [calling, aheadOfCall] using same
  rw [call]
  by_cases first : name.head? = some '$'
  · exact places parts first around (parted_some (by decide)) (parted_some (by decide)) same'
  · have last := ends.resolve_right fun starts => first starts.2
    have newline : (' ' :: style.closing ++ lead name).getLast? = some '\n' := by
      rw [lead, if_neg first, List.append_nil]
      rcases Style.mem_edged.mp edged with rfl | rfl | rfl <;> decide
    refine places_of_getLast? parts last around (by simp) ?_ ?_ same'
    · rw [List.getLast?_concat]
      exact parted_some (by decide)
    · rw [newline]
      exact parted_some (by decide)

/-- The call stands at the start of its line, or behind one character. -/
theorem exists_newline {style : Style} (name : Text) (edged : style ∈ Style.edged) :
    ∃ above, aheadOfCall style name = above ++ '\n' :: lead name := by
  obtain ⟨front, closing⟩ : ∃ front, style.closing = front ++ ['\n'] := by
    rcases Style.mem_edged.mp edged with rfl | rfl | rfl
    · exact ⟨"\x7b\x7d".toList, rfl⟩
    · exact ⟨"\x7d from 'm';".toList, rfl⟩
    · exact ⟨"\x7d = m;".toList, rfl⟩
  exact ⟨style.opening ++ ' ' :: (name ++ ' ' :: front), by simp [aheadOfCall, closing]⟩

/-- In front of the call is a newline or the letter put there. -/
theorem getLast?_aheadOfCall {style : Style} (name : Text) (edged : style ∈ Style.edged) :
    (aheadOfCall style name).getLast? = some (if name.head? = some '$' then 'é' else '\n') := by
  obtain ⟨above, shape⟩ := exists_newline name edged
  rw [shape, lead]
  split <;> simp

/-- Trimming takes away the gap behind a solid character. -/
theorem getLast?_trimEnd {front gap : Text} {c : Char} (solid : isBlank c = false)
    (blank : Blank gap) : List.getLast? (Text.trimEnd (front ++ c :: gap)) = some c := by
  have split : front ++ c :: gap = (front ++ [c]) ++ gap := by simp
  rw [split, Text.trimEnd_append blank (by simpa using solid) (by simp)]
  simp

/-- Trimming takes away the gap before a solid character. -/
theorem head?_trimStart {gap rest : Text} {c : Char} (solid : isBlank c = false)
    (blank : Blank gap) : List.head? (Text.trimStart (gap ++ c :: rest)) = some c := by
  rw [Text.trimStart, List.dropWhile_append_of_pos blank]
  simp [solid]

/-- What may end the text in front of the name, blanks aside. -/
def mayEndAhead (style : Style) (c : Char) : Bool :=
  among "\x7b\x7d;é" c || c == 's' && style != .destructuring

/-- What stands on the two sides of the name, blanks aside, and directly behind it, at both of its
places. -/
theorem sides {style : Style} {name ahead behind : Text} (named : isName name = true)
    (missed : style.binds name = false)
    (same : calling style name = ahead ++ (name ++ behind)) :
    ahead.trimEnd.getLast?.any (mayEndAhead style) = true ∧
      behind.trimStart.head?.any (among "\x7b\x7d(") = true ∧ Parted behind.head? := by
  obtain ⟨edged, -⟩ := Style.mem_edged_of_binds missed
  rcases calling_places named missed same with ⟨rfl, rfl⟩ | ⟨rfl, rfl⟩
  · refine ⟨?_, ?_, parted_some (by decide)⟩
    · rcases Style.mem_edged.mp edged with rfl | rfl | rfl <;> decide
    · rcases Style.mem_edged.mp edged with rfl | rfl | rfl <;> rfl
  · refine ⟨?_, by decide, parted_some (by decide)⟩
    obtain ⟨front, c, gap, shape, solid, blank, allowed⟩ : ∃ front c gap,
        aheadOfCall style name = front ++ c :: gap ∧ isBlank c = false ∧ Blank gap ∧
          mayEndAhead style c = true := by
      rw [aheadOfCall, lead]
      split
      · exact ⟨style.opening ++ ' ' :: (name ++ ' ' :: style.closing), 'é', [], by simp, by decide,
          by simp [Blank], by simp +decide [mayEndAhead]⟩
      · obtain ⟨front, c, shape, solid, allowed⟩ : ∃ front c, style.closing = front ++ [c, '\n'] ∧
            isBlank c = false ∧ mayEndAhead style c = true := by
          rcases Style.mem_edged.mp edged with rfl | rfl | rfl
          · exact ⟨"\x7b".toList, '\x7d', by decide⟩
          · exact ⟨"\x7d from 'm'".toList, ';', by decide⟩
          · exact ⟨"\x7d = m".toList, ';', by decide⟩
        exact ⟨style.opening ++ ' ' :: (name ++ ' ' :: front), c, ['\n'], by simp [shape], solid,
          blank_singleton (by decide), allowed⟩
    rw [shape, getLast?_trimEnd solid blank, Option.any_some]
    exact allowed

section Missed

variable {style : Style} {name : Text} (named : isName name = true)
  (missed : style.binds name = false)

include named missed

/-- The last solid character ahead of the name is one of a few. -/
theorem mayEndAhead_of_calling {front gap behind : Text} {c : Char} (solid : isBlank c = false)
    (blank : Blank gap) (same : calling style name = (front ++ c :: gap) ++ (name ++ behind)) :
    mayEndAhead style c = true := by
  have ends := (sides named missed same).1
  rwa [getLast?_trimEnd solid blank] at ends

/-- Behind the name comes a brace or the call's parenthesis. -/
theorem among_of_calling {ahead gap rest : Text} {c : Char} (solid : isBlank c = false)
    (blank : Blank gap) (same : calling style name = ahead ++ (name ++ (gap ++ c :: rest))) :
    among "\x7b\x7d(" c = true := by
  have starts := (sides named missed same).2.1
  rwa [head?_trimStart solid blank] at starts

/-- Behind a name that ends in a dollar sign there is no word edge. -/
theorem not_dollar_of_edge {ahead behind before : Text}
    (same : calling style name = ahead ++ (name ++ behind))
    (edged : (name.reverse ++ before).head?.any isWordChar ≠ behind.head?.any isWordChar) :
    style = .destructuring ∧ name.head? = some '$' := by
  refine (Style.mem_edged_of_binds missed).2.resolve_left fun last => ?_
  obtain ⟨front, rfl⟩ := List.getLast?_eq_some_iff.mp last
  have dollar : isWordChar '$' = false := by decide
  rw [(sides named missed same).2.2.any_isWordChar] at edged
  simp [dollar] at edged

variable {left body right : Text} {captures : List Capture}
  (whole : calling style name = left ++ body ++ right)

include whole

/-- The text does not declare the name as a function: the keyword would have to stand in front of
the name, where other characters do. -/
theorem not_functionHead :
    ¬(sequence [edge, lit "function", blanks, optional (lit "*"), blanks, word name, blanks,
      lit "("]).Fits left.reverse body right captures := by
  intro fits
  obtain ⟨-, fits₁⟩ := fits.pass_edge
  obtain ⟨_, rfl, fits₂⟩ := fits₁.pass_lit
  obtain ⟨gap, _, rfl, blank, fits₃⟩ := fits₂.pass_many
  obtain ⟨star, _, _, _, rfl, -, starred, fits₄⟩ := fits_sequence_cons.mp fits₃
  obtain ⟨gap', _, rfl, blank', fits₅⟩ := fits₄.pass_many
  obtain ⟨back, rfl, -⟩ := fits₅.pass_word
  rcases starred with star | ⟨rfl, -⟩
  · obtain ⟨rfl, -⟩ := fits_lit.mp star
    have same : calling style name =
        ((left ++ "function".toList ++ gap) ++ '*' :: gap') ++ (name ++ (back ++ right)) := by
      simpa using whole
    have allowed := mayEndAhead_of_calling named missed (by decide) blank' same
    simp +decide [mayEndAhead] at allowed
  · have same : calling style name =
        ((left ++ "functio".toList) ++ 'n' :: (gap ++ gap')) ++ (name ++ (back ++ right)) := by
      simpa using whole
    have blanks : Blank (gap ++ gap') := List.forall_mem_append.mpr ⟨blank, blank'⟩
    have allowed := mayEndAhead_of_calling named missed (by decide) blanks same
    simp +decide [mayEndAhead] at allowed

/-- The text does not declare the name with a keyword right in front of it, as a function value
would be. -/
theorem not_functionValue {rest : List Pattern} :
    ¬(sequence (edge :: declarator :: someBlanks :: word name :: rest)).Fits
      left.reverse body right captures := by
  intro fits
  obtain ⟨-, fits₁⟩ := fits.pass_edge
  obtain ⟨keyword, listed, _, rfl, fits₂⟩ := fits₁.pass_litOf
  obtain ⟨c, gap, _, rfl, blank, fits₃⟩ := fits₂.pass_many1
  obtain ⟨back, rfl, -⟩ := fits₃.pass_word
  obtain ⟨front, last, shape, solid, other⟩ : ∃ front last, keyword.toList = front ++ [last] ∧
      isBlank last = false ∧ mayEndAhead style last = false := by
    simp only [List.mem_cons, List.not_mem_nil, or_false] at listed
    rcases listed with rfl | rfl | rfl
    · exact ⟨"cons".toList, 't', by decide, by decide, by simp +decide [mayEndAhead]⟩
    · exact ⟨"le".toList, 't', by decide, by decide, by simp +decide [mayEndAhead]⟩
    · exact ⟨"va".toList, 'r', by decide, by decide, by simp +decide [mayEndAhead]⟩
  have same : calling style name =
      ((left ++ front) ++ last :: (c :: gap)) ++ (name ++ (back ++ right)) := by
    simpa [shape] using whole
  rw [mayEndAhead_of_calling named missed solid blank same] at other
  cases other

/-- No equals sign stands behind the name. -/
theorem not_equals {start : Pattern} {text : String} {rest : List Pattern}
    (equals : text.toList.head? = some '=') :
    ¬(sequence (start :: word name :: blanks :: lit text :: rest)).Fits
      left.reverse body right captures := by
  intro fits
  obtain ⟨front, _, _, _, rfl, -, -, fits₁⟩ := fits_sequence_cons.mp fits
  obtain ⟨_, rfl, fits₂⟩ := fits₁.pass_word
  obtain ⟨gap, _, rfl, blank, fits₃⟩ := fits₂.pass_many
  obtain ⟨back, rfl, -⟩ := fits₃.pass_lit
  obtain ⟨more, shape⟩ := List.head?_eq_some_iff.mp equals
  have same : calling style name =
      (left ++ front) ++ (name ++ (gap ++ '=' :: (more ++ (back ++ right)))) := by
    simpa [shape] using whole
  exact absurd (among_of_calling named missed (by decide) blank same) (by decide)

/-- The pattern for classes misses the name. -/
theorem not_classHead :
    ¬(sequence [edge, lit "class", someBlanks, word name, edge]).Fits
      left.reverse body right captures := by
  intro fits
  obtain ⟨-, fits₁⟩ := fits.pass_edge
  obtain ⟨_, rfl, fits₂⟩ := fits₁.pass_lit
  obtain ⟨c, gap, _, rfl, blank, fits₃⟩ := fits₂.pass_many1
  obtain ⟨edged, shape, -⟩ := fits_word_edge.mp fits₃
  have same : calling style name =
      ((left ++ "clas".toList) ++ 's' :: (c :: gap)) ++ (name ++ right) := by
    simpa [shape] using whole
  obtain ⟨rfl, -⟩ := not_dollar_of_edge named missed same edged
  exact absurd (mayEndAhead_of_calling named missed (by decide) blank same) (by decide)

/-- The pattern for imports misses the name, for the same reason. -/
theorem not_importList {rest : List Pattern} :
    ¬(sequence (edge :: lit "import" :: edge :: many (notAmong ";\n") ::
      char (fun c => !continuesName c) :: word name :: edge :: rest)).Fits
      left.reverse body right captures := by
  intro fits
  obtain ⟨-, fits₁⟩ := fits.pass_edge
  obtain ⟨_, rfl, fits₂⟩ := fits₁.pass_lit
  obtain ⟨-, fits₃⟩ := fits₂.pass_edge
  obtain ⟨run, _, rfl, -, fits₄⟩ := fits₃.pass_many
  obtain ⟨_, _, _, _, rfl, -, ⟨⟨c, apart, rfl⟩, -⟩, fits₅⟩ := fits_sequence_cons.mp fits₄
  obtain ⟨back, rfl, fits₆⟩ := fits₅.pass_word
  obtain ⟨edged, -⟩ := fits₆.pass_edge
  have same : calling style name =
      (left ++ ("import".toList ++ (run ++ [c]))) ++ (name ++ (back ++ right)) := by
    simpa using whole
  obtain ⟨rfl, first⟩ := not_dollar_of_edge named missed same edged
  rcases calling_places named missed same with ⟨ahead, -⟩ | ⟨ahead, -⟩
  · have listed : 'i' ∈ Style.destructuring.opening ++ [' '] := by
      rw [← ahead]
      simp
    exact absurd listed (by decide)
  · have last : (left ++ ("import".toList ++ (run ++ [c]))).getLast? = some c :=
      List.getLast?_eq_some_iff.mpr ⟨left ++ ("import".toList ++ run), by simp⟩
    rw [ahead, getLast?_aheadOfCall name (by decide), if_pos first] at last
    obtain rfl := Option.some.inj last
    exact absurd apart (by decide)

/-- The pattern for destructuring misses the name, since it asks for an edge on both sides of it. -/
theorem not_destructuring {rest : List Pattern} :
    ¬(sequence (edge :: declarator :: blanks :: lit "\x7b" :: many (notAmong "\x7d") :: edge ::
      word name :: edge :: many (notAmong "\x7d") :: lit "\x7d" :: rest)).Fits
      left.reverse body right captures := by
  intro fits
  obtain ⟨-, fits₁⟩ := fits.pass_edge
  obtain ⟨keyword, -, _, rfl, fits₂⟩ := fits₁.pass_litOf
  obtain ⟨gap, _, rfl, -, fits₃⟩ := fits₂.pass_many
  obtain ⟨_, rfl, fits₄⟩ := fits₃.pass_lit
  obtain ⟨front, _, rfl, -, fits₅⟩ := fits₄.pass_many
  obtain ⟨edged, fits₆⟩ := fits₅.pass_edge
  obtain ⟨_, rfl, fits₇⟩ := fits₆.pass_word
  obtain ⟨edged', fits₈⟩ := fits₇.pass_edge
  obtain ⟨back, _, rfl, -, fits₉⟩ := fits₈.pass_many
  obtain ⟨more, rfl, -⟩ := fits₉.pass_lit
  have same : calling style name =
      (left ++ (keyword.toList ++ (gap ++ ("\x7b".toList ++ front)))) ++
        (name ++ (back ++ ("\x7d".toList ++ more) ++ right)) := by
    simpa using whole
  obtain ⟨rfl, first⟩ := not_dollar_of_edge named missed same edged'
  have dollar : isWordChar '$' = false ∧ isWordChar ' ' = false := by decide
  rcases calling_places named missed same with ⟨ahead, -⟩ | ⟨-, behind⟩
  · obtain ⟨others, shape⟩ := List.head?_eq_some_iff.mp first
    have before : front.reverse ++ ("\x7b".toList.reverse ++ (gap.reverse ++
        (keyword.toList.reverse ++ left.reverse))) =
        (Style.destructuring.opening ++ [' ']).reverse := by
      rw [← ahead]
      simp
    rw [before, shape] at edged
    simp [dollar] at edged
  · have listed : '\x7d' ∈ "();\n".toList := by
      rw [← behind]
      simp
    exact absurd listed (by decide)

omit whole in
/-- The only parenthesis that opens is that of the call, so that a call found anywhere is this
one. -/
theorem opens_call {left rest : Text} (same : calling style name = left ++ '(' :: rest) :
    left = aheadOfCall style name ++ name ∧ rest = ");\n".toList := by
  obtain ⟨edged, -⟩ := Style.mem_edged_of_binds missed
  have absent : '(' ∉ aheadOfCall style name ++ name := by
    have inName : '(' ∉ name := fun inside =>
      ne_of_continuesName (continuesName_of_isName named _ inside) (by decide) rfl
    have inLead : '(' ∉ lead name := by
      rw [lead]
      split <;> decide
    have inStyle : '(' ∉ style.opening ∧ '(' ∉ style.closing := by
      rcases Style.mem_edged.mp edged with rfl | rfl | rfl <;> decide
    simp [aheadOfCall, inName, inLead, inStyle]
  have same' : aheadOfCall style name ++ name ++ "();\n".toList = left ++ (['('] ++ rest) := by
    simpa [calling] using same
  obtain ⟨inner, rfl, read⟩ := place_behind rfl absent same'
  cases inner with
  | nil => exact ⟨by simp, by simpa using read.symm⟩
  | cons c inner =>
    obtain ⟨-, read⟩ := List.cons.inj read
    have behind : ");\n".toList = inner ++ (['('] ++ rest) := read
    have listed : '(' ∈ ");\n".toList := by
      rw [behind]
      simp
    exact absurd listed (by decide)

omit whole in
/-- The name is no parameter in the text, because the parenthesis of the call is followed by neither
an arrow nor a brace. -/
theorem isParameter_calling [Engine] : isParameter (calling style name) name = false := by
  have none : parameterList.allMatches (calling style name) = [] := by
    refine List.eq_nil_iff_forall_not_mem.mpr fun found member => ?_
    obtain ⟨left, right, captures, occurs⟩ := occurs_of_mem_allMatches member
    obtain ⟨list, gap, arrow, flat, blank, listed, body, -⟩ := fits_parameterList.mp occurs.fits
    have whole := occurs.whole
    have same : calling style name =
        left ++ '(' :: (list ++ (")".toList ++ (gap ++ arrow.toList) ++ right)) := by
      simpa [body] using whole
    obtain ⟨-, rest⟩ := opens_call named missed same
    obtain ⟨-, behind⟩ := @Text.run_unique (notAmong "()") [] ");\n".toList list
      (")".toList ++ (gap ++ arrow.toList) ++ right) rest.symm (by simp) flat
      (show notAmong "()" ')' = false by decide) (show notAmong "()" ')' = false by decide)
    obtain ⟨c, more, shape, solid, other⟩ : ∃ c more, arrow.toList = c :: more ∧
        isBlank c = false ∧ c ≠ ';' := by
      simp only [List.mem_cons, List.not_mem_nil, or_false] at listed
      rcases listed with rfl | rfl
      · exact ⟨'=', ['>'], by decide⟩
      · exact ⟨'\x7b', [], by decide⟩
    have read : ";\n".toList = gap ++ c :: (more ++ right) := by simpa [shape] using behind
    have first := @head?_trimStart gap (more ++ right) c solid blank
    rw [← read] at first
    exact other (Option.some.inj (first.symm.trans (by decide)))
  rw [isParameter, none, List.any_nil, Bool.and_false]

omit whole in
/-- The text binds the name in no way that is looked for. The patterns are gone through one by
one. -/
theorem isDeclared_calling [Engine] : isDeclared (calling style name) name = false := by
  rw [isDeclared, isParameter_calling named missed, Bool.or_false, List.any_eq_false]
  intro pattern taken occurs
  obtain ⟨left, body, right, captures, whole, fits⟩ := occursIn_iff.mp occurs
  have listed := List.mem_of_mem_filter taken
  simp only [declarations, List.mem_cons, List.not_mem_nil, or_false] at listed
  rcases listed with rfl | rfl | rfl | rfl | rfl | rfl | rfl
  · exact not_functionHead named missed whole fits
  · exact not_functionValue named missed whole fits
  · exact not_equals named missed whole rfl fits
  · exact not_classHead named missed whole fits
  · exact not_importList named missed whole fits
  · exact not_destructuring named missed whole fits
  · exact not_equals named missed whole rfl fits

end Missed

/-- The text declares the name, in the form that the style has for declarations. -/
theorem exists_declares {style : Style} (name : Text) (edged : style ∈ Style.edged) :
    ∃ before body after, calling style name = before ++ body ++ after ∧
      Declares name before after style body := by
  rcases Style.mem_edged.mp edged with rfl | rfl | rfl
  · have opening : Style.classHead.opening = "class".toList := rfl
    have closing : Style.classHead.closing = "\x7b\x7d\n".toList := rfl
    exact ⟨[], "class".toList ++ ([' '] ++ name),
      " \x7b\x7d\n".toList ++ (lead name ++ (name ++ "();\n".toList)),
      by simp [calling, aheadOfCall, opening, closing],
      .classHead parted_none (by simp) (blank_singleton (by decide)) (parted_some (by decide))⟩
  · have opening : Style.importList.opening = "import \x7b".toList := rfl
    have closing : Style.importList.closing = "\x7d from 'm';\n".toList := rfl
    exact ⟨[], "import".toList ++ (" \x7b ".toList ++ (name ++ (" \x7d ".toList ++ "from".toList))),
      " 'm';\n".toList ++ (lead name ++ (name ++ "();\n".toList)),
      by simp [calling, aheadOfCall, opening, closing],
      .importList parted_none (by simp) ⟨parted_some (by decide), parted_some (by decide)⟩ (by simp)
        ⟨parted_some (by decide), parted_some (by decide)⟩ (List.all_eq_true.mp (by decide))
        (parted_some (by decide))⟩
  · have opening : Style.destructuring.opening = "const \x7b".toList := rfl
    have closing : Style.destructuring.closing = "\x7d = m;\n".toList := rfl
    exact ⟨[], "const".toList ++ ([' '] ++ ("\x7b".toList ++ ([' '] ++ (name ++ ([' '] ++
      ("\x7d".toList ++ ([' '] ++ "=".toList))))))),
      " m;\n".toList ++ (lead name ++ (name ++ "();\n".toList)),
      by simp [calling, aheadOfCall, opening, closing],
      .destructuring parted_none (by simp) (blank_singleton (by decide)) (parted_some (by decide))
        (parted_some (by decide)) (List.all_eq_true.mp (by decide)) (blank_singleton (by decide))⟩

/-! ### The call -/

/-- A call is a name with an edge in front of it and a parenthesis right behind, and captures the
name. -/
theorem fits_call {before body after : Text} {captures : List Capture} :
    call.Fits before body after captures ↔
      ∃ name, isName name = true ∧
        before.head?.any isWordChar ≠ name.head?.any isWordChar ∧
        body = name ++ "(".toList ∧ captures = [⟨1, before, name⟩] := by
  constructor
  · intro fits
    obtain ⟨edged, fits₁⟩ := fits.pass_edge
    obtain ⟨name, _, _, _, rfl, rfl, named, fits₂⟩ := fits₁.pass_group
    obtain ⟨isNamed, rfl⟩ := fits_name.mp named
    obtain ⟨rfl, rfl⟩ := fits_lit.mp fits₂
    obtain ⟨c, rest, rfl⟩ := List.exists_cons_of_ne_nil (ne_nil_of_isName isNamed)
    exact ⟨c :: rest, isNamed, edged, rfl, rfl⟩
  · rintro ⟨name, named, edged, rfl, rfl⟩
    obtain ⟨c, rest, rfl⟩ := List.exists_cons_of_ne_nil (ne_nil_of_isName named)
    exact .cons_edge edged (fits_sequence_cons.mpr ⟨c :: rest, "(".toList, [⟨1, _, _⟩], [], rfl,
      rfl, ⟨[], rfl, fits_name.mpr ⟨named, rfl⟩⟩, fits_lit.mpr ⟨rfl, rfl⟩⟩)

/-- The name is called where no longer name could be: the character in front of it is no part of
names. -/
theorem unextended {style : Style} {name front gap : Text} (edged : style ∈ Style.edged)
    (split : aheadOfCall style name = front ++ gap) (isNamed : isName (gap ++ name) = true) :
    gap = [] := by
  obtain ⟨above, shape⟩ := exists_newline name edged
  have inside : '\n' ∉ gap := fun listed =>
    absurd (continuesName_of_isName isNamed '\n' (by simp [listed])) (by decide)
  have same : (above ++ ['\n']) ++ lead name = front ++ gap := by
    rw [← split, shape]
    simp
  obtain ⟨others, within⟩ : ∃ others, lead name = others ++ gap := by
    rcases List.append_eq_append_iff.mp same with ⟨others, -, within⟩ | ⟨more, longer, rfl⟩
    · exact ⟨others, within⟩
    · rcases List.eq_nil_or_concat more with rfl | ⟨more, last, rfl⟩
      · exact ⟨[], rfl⟩
      · obtain rfl : '\n' = last := by
          simpa [← List.append_assoc] using congrArg List.getLast? longer
        exact absurd (by simp) inside
  rw [lead] at within
  split at within
  · cases others with
    | nil =>
      obtain rfl : ['é'] = gap := within
      exact absurd isNamed (by simp +decide [isName])
    | cons c others =>
      obtain ⟨-, rest⟩ := List.cons.inj within
      exact (List.append_eq_nil_iff.mp rest.symm).2
  · exact (List.append_eq_nil_iff.mp within.symm).2

/-- There is a word edge in front of the call. -/
theorem edge_of_call {style : Style} {name : Text} (named : isName name = true)
    (edged : style ∈ Style.edged) :
    (aheadOfCall style name).reverse.head?.any isWordChar ≠ name.head?.any isWordChar := by
  rw [List.head?_reverse, getLast?_aheadOfCall name edged]
  by_cases first : name.head? = some '$'
  · have kinds : isWordChar 'é' = true ∧ isWordChar '$' = false := by decide
    simp [first, kinds]
  · have ahead := @edge_ahead name [] (some '\n') named first (parted_some (by decide))
    rwa [if_neg first, ← List.append_nil name]

section Missed

variable {style : Style} {name : Text} (named : isName name = true)
  (missed : style.binds name = false)

include named missed

/-- What fits a call in the text ends where the name's call does. -/
theorem called_of_fits {left body right : Text} {captures : List Capture}
    (whole : calling style name = left ++ body ++ right)
    (fits : call.Fits left.reverse body right captures) :
    ∃ called, isName called = true ∧ left ++ called = aheadOfCall style name ++ name ∧
      body = called ++ "(".toList ∧ captures = [⟨1, left.reverse, called⟩] := by
  obtain ⟨called, isNamed, -, rfl, rfl⟩ := fits_call.mp fits
  have same : calling style name = (left ++ called) ++ '(' :: right := by simpa using whole
  exact ⟨called, isNamed, (opens_call named missed same).1, rfl, rfl⟩

/-- The call is found where it stands, and its group is the name. It is the only match of the
search. -/
theorem exists_call :
    ∃ found ∈ call.allMatches (calling style name),
      found.start = (aheadOfCall style name).width ∧
      found.stop = (aheadOfCall style name ++ name).width + 1 ∧
      ∃ piece, found.group? 1 = some piece ∧ piece.body = name := by
  obtain ⟨edged, -⟩ := Style.mem_edged_of_binds missed
  have regroup : calling style name =
      aheadOfCall style name ++ (name ++ "(".toList) ++ ");\n".toList := by simp [calling]
  have fits : call.Fits (aheadOfCall style name).reverse (name ++ "(".toList) ");\n".toList
      [⟨1, (aheadOfCall style name).reverse, name⟩] :=
    fits_call.mpr ⟨name, named, edge_of_call named edged, rfl, rfl⟩
  have never : ∀ before after captures, ¬call.Fits before [] after captures := by
    intro before after captures fits
    obtain ⟨name, -, -, empty, -⟩ := fits_call.mp fits
    simp at empty
  have clear : ∀ left body right captures,
      aheadOfCall style name ++ (name ++ "(".toList) ++ ");\n".toList = left ++ body ++ right →
      call.Fits left.reverse body right captures → left.width < (aheadOfCall style name).width →
      (left ++ body).width ≤ (aheadOfCall style name).width := by
    intro left body right captures same fits before
    obtain ⟨called, isNamed, read, -, -⟩ := called_of_fits named missed (regroup.trans same) fits
    obtain ⟨gap, split, rfl⟩ := Text.exists_gap_of_width_le read (Nat.le_of_lt before)
    obtain rfl := unextended edged split isNamed
    rw [split, List.append_nil] at before
    exact absurd before (Nat.lt_irrefl _)
  obtain ⟨found, member, start⟩ := exists_mem_allMatches_of_clear fits never clear
  rw [← regroup] at member
  obtain ⟨left, right, captures, occurs⟩ := occurs_of_mem_allMatches member
  obtain ⟨called, -, read, body, rfl⟩ := called_of_fits named missed occurs.whole occurs.fits
  obtain ⟨rfl, rfl⟩ := Text.append_inj_of_width read (occurs.start_eq.symm.trans start)
  refine ⟨found, member, start, ?_, ?_⟩
  · have opening : Text.width "(".toList = 1 := rfl
    rw [occurs.stop_eq, body, Text.width_append, Text.width_append, opening, Nat.add_assoc]
  · exact Block.group?_of_occurs occurs Nat.one_pos (by decide) (by simp [captured])

/-- The call is in code, as nothing in front of it opens a literal or a comment. -/
theorem inCode_call : (calling style name).layout.inCode (aheadOfCall style name).width = true := by
  obtain ⟨edged, -⟩ := Style.mem_edged_of_binds missed
  have plain : ∀ c ∈ name, Mode.isPlain c = true := fun c listed =>
    isPlain_of_continuesName (continuesName_of_isName named c listed)
  have opening : Mode.code.after (style.opening ++ [' ']) = .code := by
    rcases Style.mem_edged.mp edged with rfl | rfl | rfl <;> decide
  have closing : Mode.code.after (' ' :: style.closing) = .code := by
    rcases Style.mem_edged.mp edged with rfl | rfl | rfl <;> decide
  have leads : Mode.code.after (lead name) = .code := by
    rw [lead]
    split <;> decide
  have inName : Mode.code.after name = .code :=
    Mode.after_of_isPlain trivial (ne_nil_of_isName named) plain
  have ahead : Mode.code.after (aheadOfCall style name) = .code := by
    have shape : aheadOfCall style name =
        (style.opening ++ [' ']) ++ (name ++ ((' ' :: style.closing) ++ lead name)) := by
      simp [aheadOfCall]
    rw [shape, Mode.after_append, opening, Mode.after_append, inName, Mode.after_append, closing,
      leads]
  obtain ⟨c, rest, shape⟩ := List.exists_cons_of_ne_nil (ne_nil_of_isName named)
  have whole : calling style name = aheadOfCall style name ++ c :: (rest ++ "();\n".toList) := by
    rw [calling]
    nth_rewrite 2 [shape]
    rfl
  have byte := Text.inCode_layout_byte (aheadOfCall style name) (rest ++ "();\n".toList) c
    c.utf8Size_pos
  rw [whole, ← Nat.add_zero (Text.width _), byte, ahead,
    Mode.showsCode_of_isPlain (plain c (by simp [shape]))]
  rfl

end Missed

/-- No block follows the call: behind its parentheses there is a semicolon. -/
theorem opensBlock_call {style : Style} {name : Text} {known : Text → Bool} {found : Match}
    (stop : found.stop = (aheadOfCall style name ++ name).width + 1) :
    opensBlock ⟨calling style name, (calling style name).layout, known, found⟩ = false := by
  have whole : calling style name =
      (aheadOfCall style name ++ name ++ "()".toList) ++ ";\n".toList := by simp [calling]
  have call : (aheadOfCall style name ++ name ++ "()".toList).width =
      (aheadOfCall style name ++ name).width + 2 := Text.width_append _ _
  refine Bool.eq_false_iff.mpr fun opens => ?_
  obtain ⟨closed, pair, opens⟩ := (Option.any_eq_true _ _).mp opens
  obtain ⟨rest, cut, starts⟩ := (Option.any_eq_true _ _).mp opens
  obtain ⟨behind, -, -⟩ := Text.of_matchingClose? pair
  obtain ⟨front, cut, stands⟩ := (Text.from?_eq_some_iff _ _ _).mp cut
  dsimp only at behind
  obtain ⟨gap, -, tail⟩ := Text.exists_gap_of_width_le (whole.symm.trans cut) (by omega)
  have braced : '\x7b' ∈ rest :=
    (List.dropWhile_sublist _).mem ((List.isPrefixOf_iff_prefix.mp starts).mem (by simp))
  exact absurd (tail ▸ List.mem_append_right gap braced) (by decide)

/-- No keyword has a dollar sign. -/
theorem not_keyword_of_dollar {name : Text} (dollar : '$' ∈ name) :
    keywords.contains (String.ofList name) = false := by
  have plain : ∀ word ∈ keywords, '$' ∉ word.toList := by decide
  refine Bool.eq_false_iff.mpr fun listed => ?_
  have absent := plain _ (List.contains_iff_mem.mp listed)
  rw [String.toList_ofList] at absent
  exact absent dollar

/-- A declaration that the style misses is followed by a call that is reported, although the name is
declared. -/
theorem exists_reported [Engine] {style : Style} {name : Text} (named : isName name = true)
    (missed : style.binds name = false) :
    ∃ found ∈ call.allMatches (calling style name),
      isReported ⟨calling style name, (calling style name).layout, fun _ => false, found⟩ = true ∧
      (found.group? 1).map Piece.body = some name := by
  obtain ⟨edged, dollar⟩ := Style.mem_edged_of_binds missed
  obtain ⟨found, member, start, stop, piece, group, body⟩ := exists_call named missed
  have dollar : '$' ∈ name := by
    rcases dollar with last | ⟨-, first⟩
    · exact List.mem_of_getLast? last
    · exact List.mem_of_head? first
  have ahead : (calling style name).upTo? found.start = some (aheadOfCall style name) := by
    rw [start]
    exact Text.upTo?_width _ _
  have parted : ((aheadOfCall style name).getLast?.any fun c =>
      c == '.' || isIdentifierChar c) = false := by
    rw [getLast?_aheadOfCall name edged]
    split <;> decide
  refine ⟨found, member, ?_, by rw [group, Option.map_some, body]⟩
  rw [isReported, group, Option.any_some, body, not_keyword_of_dollar dollar, ahead,
    Option.any_some, parted, start, inCode_call named missed, isDeclared_calling named missed,
    opensBlock_call stop]
  rfl

/-- A call of a declared name is not reported. -/
theorem isReported_of_isDeclared [Engine] {text : Text} {known : Text → Bool} {found : Match}
    {piece : Piece} (taken : found.group? 1 = some piece)
    (declared : isDeclared text piece.body = true) :
    isReported ⟨text, text.layout, known, found⟩ = false := by
  simp [isReported, taken, declared]

/-- In every text that declares a name in a style, no call of the name is reported. The rule
does not fail. -/
def Style.Spares [Engine] (style : Style) (name : Text) : Prop :=
  ∀ known before body after, Declares name before after style body →
    ∃ findings, undefined.findings? known (before ++ body ++ after) = some findings ∧
      ∀ finding ∈ findings, Block.groupText? finding.groups 1 ≠ some name

/-- No call of a name is reported in a text that declares it, if the style of the declaration
binds the name and the engine takes the patterns of the style. A style that does not bind the
name is not safe with any engine: a class, an import or a destructuring misses a name that
ends in a dollar sign, a destructuring also one that starts with it. -/
theorem undefined_spares_declared [Engine] (style : Style) (name : Text)
    (named : isName name = true) :
    ((∀ pattern ∈ style.patterns name, Engine.takes pattern = true) → style.binds name = true →
        style.Spares name) ∧
      (style.Spares name → style.binds name = true) := by
  have group (text : Text) (found : Match) :
      Block.groupText? (undefined.finding text found).groups 1 =
        (found.group? 1).map Piece.body := Block.groupText?_texts found Nat.one_pos
  constructor
  · intro taken binds known before body after declares
    have declared := isDeclared_of_declares named binds taken declares
    refine ⟨_, findings?_undefined known _, fun finding listed => ?_⟩
    obtain ⟨found, accepted, rfl⟩ := List.mem_map.mp listed
    rw [group]
    intro called
    obtain ⟨piece, captured, rfl⟩ := Option.map_eq_some_iff.mp called
    have reported := (List.mem_filter.mp accepted).2
    rw [isReported_of_isDeclared captured declared] at reported
    cases reported
  · intro spared
    by_contra missed
    rw [Bool.not_eq_true] at missed
    obtain ⟨edged, -⟩ := Style.mem_edged_of_binds missed
    obtain ⟨before, body, after, whole, declares⟩ := exists_declares name edged
    obtain ⟨found, member, reported, called⟩ := exists_reported named missed
    obtain ⟨findings, result, others⟩ := spared (fun _ => false) before body after declares
    rw [← whole, findings?_undefined] at result
    obtain rfl := Option.some.inj result
    exact others _ (List.mem_map_of_mem (List.mem_filter.mpr ⟨member, reported⟩))
      ((group _ found).trans called)

/-- A parameter with a default, and a name with a character that is not ASCII and with a dollar
sign at its end. -/
theorem undefined_spares_declared_parameter :
    let _ : Engine := .unlimited
    isName "fé$".toList = true ∧ ∃ findings,
      undefined.findings? (fun _ => false) "each((x, fé$ = id) => fé$(x));\n".toList =
        some findings ∧
      ∀ finding ∈ findings, Block.groupText? finding.groups 1 ≠ some "fé$".toList := by
  intro _
  have named : isName "fé$".toList = true := by decide +kernel
  have parameter : IsParameter "fé$".toList " fé$ = id".toList := by
    exact ⟨" ".toList, "", " ".toList, "= id".toList, blank_singleton (by decide), by decide,
      blank_singleton (by decide), fun c first => (Option.some.inj first).symm, by decide, rfl⟩
  have declares : Declares "fé$".toList "each(".toList " fé$(x));\n".toList .parameter
      "(x, fé$ = id) =>".toList := by
    exact @Declares.listed _ _ _ "x,".toList " fé$ = id".toList [] " ".toList "=>"
      (fun c last => (Option.some.inj last).symm) (by simp) parameter
      (List.all_eq_true.mp (by decide)) (blank_singleton (by decide)) (by decide)
  have whole : "each(".toList ++ "(x, fé$ = id) =>".toList ++ " fé$(x));\n".toList =
      "each((x, fé$ = id) => fé$(x));\n".toList := by decide
  have spared := (undefined_spares_declared .parameter "fé$".toList named).1 (fun _ _ => rfl) rfl
    (fun _ => false) _ _ _ declares
  rw [whole] at spared
  exact ⟨named, spared⟩

/-- An import misses a name that ends in a dollar sign. Further declarations are missed under
any name: an import over several lines, an arrow function with its parameters right behind
the keyword, a parameter in a list with parentheses of its own. -/
theorem undefined_reports_imported :
    let _ : Engine := .unlimited
    let reported (text : String) : Option (List (Option Text)) :=
      (undefined.findings? (fun _ => false) text.toList).map
        (List.map fun finding => Block.groupText? finding.groups 1)
    Declares "map$".toList [] " './m';\nmap$();\n".toList .importList
        "import \x7b map$ \x7d from".toList ∧
      reported "import \x7b map$ \x7d from './m';\nmap$();\n" = some [some "map$".toList] ∧
      reported "import \x7b\n  map,\n\x7d from './m';\nmap();\n" = some [some "map".toList] ∧
      reported "const go = async(x) => x;\ngo();\n" = some [some "go".toList] ∧
      reported "const run = (a = (1), f) => f(a);\n" = some [some "f".toList] := by
  intro _ reported
  constructor
  · exact @Declares.importList _ _ _ " \x7b ".toList " \x7d ".toList parted_none (by decide)
      ⟨parted_some (by decide), parted_some (by decide)⟩ (by decide)
      ⟨parted_some (by decide), parted_some (by decide)⟩ (List.all_eq_true.mp (by decide))
      (parted_some (by decide))
  · decide +kernel

end Call

end ScriptCheck
