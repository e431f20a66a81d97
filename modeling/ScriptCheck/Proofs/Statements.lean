import ScriptCheck.Proofs.Alteration
import ScriptCheck.Proofs.Strays

/-!
# The statements of a body

A text is cut into statements behind the semicolons in its code that no brackets enclose.
The check of a bare body asks about the whole body what it could ask about each statement:
whether it has an `else`, a block or a comment, and whether it leaves something open. So it
cannot tell one statement from several. A body can be wrapped exactly when each of its
statements can, and the two rules for bare bodies report exactly such bodies.
-/

namespace ScriptCheck

namespace Text

variable {text front piece rest : Text} {ends : Nat → Bool} {offset : Nat}

/-- Whether a statement ends at an offset: with a semicolon in code that no brackets
enclose. -/
def endsStatement (text : Text) (offset : Nat) : Bool :=
  text.codeByte? offset == some ';' &&
    text.layout.pairs.all fun pair => !(pair.1 < offset && offset < pair.2)

/-- The pieces of a text, each up to an offset at which one ends. `piece` is what has been
read of the first one. -/
def piecesFrom (ends : Nat → Bool) (offset : Nat) (piece : Text) : Text → List Text
  | [] => if piece.isEmpty then [] else [piece]
  | c :: rest =>
    if ends offset then (piece ++ [c]) :: piecesFrom ends (offset + c.utf8Size) [] rest
    else piecesFrom ends (offset + c.utf8Size) (piece ++ [c]) rest

/-- The statements of a text, each with its semicolon. -/
def statements (text : Text) : List Text := piecesFrom text.endsStatement 0 [] text

/-- Only blanks follow where a statement ends. -/
def IsOneStatement (text : Text) : Prop :=
  ∀ (left : Text) (c : Char) (right : Text), text = left ++ c :: right →
    text.endsStatement left.width = true → ∀ d ∈ right, isBlank d = true

/-! ### Cutting -/

/-- The pieces of a text, in a row, are the text, together with what was read of the first one. The
induction is on the rest. -/
theorem flatten_piecesFrom (ends : Nat → Bool) (offset : Nat) (piece rest : Text) :
    (piecesFrom ends offset piece rest).flatten = piece ++ rest := by
  induction rest generalizing offset piece with
  | nil =>
    rw [piecesFrom]
    split
    · rename_i empty
      simp [List.isEmpty_iff.mp empty]
    · simp
  | cons c rest ih =>
    rw [piecesFrom]
    split
    · rw [List.flatten_cons, ih]
      simp
    · rw [ih]
      simp

/-- The statements of a text, in a row, are the text. -/
theorem flatten_statements (text : Text) : text.statements.flatten = text :=
  flatten_piecesFrom _ 0 [] text

/-- All pieces but the first are blank when only blanks follow where one ends. The induction is on
the rest. -/
theorem forall_tail_piecesFrom_iff (ends : Nat → Bool) (offset : Nat) (piece rest : Text) :
    (∀ later ∈ (piecesFrom ends offset piece rest).tail, ∀ d ∈ later, isBlank d = true) ↔
      ∀ (left : Text) (c : Char) (right : Text), rest = left ++ c :: right →
        ends (offset + left.width) = true → ∀ d ∈ right, isBlank d = true := by
  induction rest generalizing offset piece with
  | nil =>
    have none : (piecesFrom ends offset piece []).tail = [] := by
      rw [piecesFrom]
      split <;> rfl
    simp [none]
  | cons c rest ih =>
    rw [piecesFrom]
    by_cases cut : ends offset = true
    · rw [if_pos cut, List.tail_cons]
      have gathered : (∀ later ∈ piecesFrom ends (offset + c.utf8Size) [] rest, ∀ d ∈ later,
          isBlank d = true) ↔ ∀ d ∈ rest, isBlank d = true := by
        have whole := flatten_piecesFrom ends (offset + c.utf8Size) [] rest
        have flat := @List.forall_mem_flatten _ (isBlank · = true)
          (piecesFrom ends (offset + c.utf8Size) [] rest)
        rw [whole, List.nil_append] at flat
        exact flat.symm
      rw [gathered]
      constructor
      · intro blank left d right split _ e listed
        apply blank
        cases left with
        | nil =>
          obtain ⟨-, rfl⟩ : c = d ∧ rest = right := by simpa using split
          exact listed
        | cons _ left =>
          obtain ⟨-, rfl⟩ := List.cons.inj split
          simp [listed]
      · intro blank
        exact blank [] c rest rfl (by simpa using cut)
    · rw [if_neg cut, ih]
      constructor
      · intro blank left d right split ending
        cases left with
        | nil => exact absurd (by simpa using ending) cut
        | cons _ left =>
          obtain ⟨rfl, further⟩ := List.cons.inj split
          exact blank left d right further (by rwa [Text.width_cons, ← Nat.add_assoc] at ending)
      · intro blank left d right split ending
        exact blank (c :: left) d right (by rw [split]; rfl)
          (by rwa [Text.width_cons, ← Nat.add_assoc])

/-- A text is one statement when its other statements are blank. -/
theorem isOneStatement_iff (text : Text) :
    text.IsOneStatement ↔
      ∀ later ∈ text.statements.tail, ∀ d ∈ later, isBlank d = true := by
  rw [statements, forall_tail_piecesFrom_iff]
  simp [IsOneStatement]

/-! ### Where a statement ends -/

/-- Behind a semicolon in code, nothing is open. -/
theorem after_semicolon (inside : (Mode.code.after front).inCode = true) :
    Mode.code.after (front ++ [';']) = .code := by
  rw [Mode.after_append]
  exact Mode.after_of_inCode inside (by simp) (List.forall_mem_singleton.mpr rfl)

/-- A statement ends with a semicolon in code, and no pair of brackets goes over it. -/
theorem of_endsStatement {c : Char} (cut : (front ++ c :: rest).endsStatement front.width = true) :
    c = ';' ∧ (Mode.code.after front).inCode = true ∧
      ∀ (kind : Bracket) (pair : Nat × Nat), pair ∈ kind.pairs (front ++ c :: rest).codeChars →
        pair.1 < front.width → pair.2 ≤ front.width := by
  rw [endsStatement, Bool.and_eq_true, beq_iff_eq, codeByte?, isCodeAt_eq_inCode,
    inCode_layout] at cut
  obtain ⟨present, apart⟩ := cut
  split at present
  · rename_i shown
    obtain rfl : c = ';' := by
      simpa using (byteAt?_width_eq_some_iff front (c :: rest) rfl).mp present
    rw [Mode.showsCode_of_isPlain rfl] at shown
    refine ⟨rfl, shown, ?_⟩
    intro kind pair member ahead
    have listed : pair ∈ (front ++ ';' :: rest).layout.pairs := by
      cases kind with
      | brace => exact List.mem_append_left _ (List.mem_append_left _ member)
      | paren => exact List.mem_append_left _ (List.mem_append_right _ member)
      | square => exact List.mem_append_right _ member
    simpa [ahead] using List.all_eq_true.mp apart pair listed
  · cases present

/-- Whether a part occurs in a text. -/
theorem contains_iff (text part : Text) : text.contains part = true ↔ part <:+: text := by
  induction text with
  | nil =>
    rw [contains, startsWith, Bool.or_false, List.isPrefixOf_iff_prefix, List.prefix_nil,
      List.infix_nil]
  | cons c rest ih =>
    rw [contains, startsWith, Bool.or_eq_true, List.isPrefixOf_iff_prefix, ih,
      List.infix_cons_iff]

/-- A part without some character occurs on one side of it. -/
theorem contains_append_cons {part : Text} {c : Char} (unbroken : c ∉ part) (front back : Text) :
    contains (front ++ c :: back) part = (front.contains part || back.contains part) := by
  rw [Bool.eq_iff_iff, Bool.or_eq_true, contains_iff, contains_iff, contains_iff]
  constructor
  · rintro ⟨left, right, whole⟩
    rcases (append_cons_eq_append_iff unbroken).mp whole.symm with
      ⟨more, split, -⟩ | ⟨gap, -, split⟩
    · exact .inl ⟨left, more, split.symm⟩
    · exact .inr ⟨gap, right, split.symm⟩
  · rintro (⟨left, right, rfl⟩ | ⟨left, right, rfl⟩)
    · exact ⟨left, right ++ c :: back, by simp⟩
    · exact ⟨front ++ c :: left, right, by simp⟩

end Text

namespace Block

open Phrase

/-- What a body that can be wrapped is free of: the keyword, braces, comment marks, open parentheses
and open literals. -/
theorem isWrappable_iff (body : Text) :
    isWrappable body = true ↔
      (body.containsWord "else".toList = false ∧ body.any (among "\x7b\x7d") = false ∧
        body.contains "//".toList = false ∧ body.contains "/*".toList = false) ∧
      Bracket.paren.unclosedFrom [] (Mode.code.visible Bracket.paren.isSide 0 body) = [] ∧
      body.unterminated? = none := by
  have closed (kind : Bracket) : kind.unclosed? body.codeChars = none ↔
      kind.unclosedFrom [] (Mode.code.visible kind.isSide 0 body) = [] := by
    rw [Bracket.unclosed?, List.getLast?_eq_none_iff, Bracket.unclosedFrom_codeChars]
  have unbraced (absent : body.any (among "\x7b\x7d") = false) :
      Bracket.brace.unclosed? body.codeChars = none := by
    rw [closed, Mode.visible_eq_nil 0]
    · rfl
    · intro c listed
      have other := List.any_eq_false.mp absent c listed
      simpa [among, Bracket.isSide, Bracket.opener, Bracket.closer] using other
  have even : (body.balance == Balance.even) = true ↔
      Bracket.brace.unclosed? body.codeChars = none ∧
        Bracket.paren.unclosed? body.codeChars = none ∧ body.unterminated? = none := by
    rw [beq_iff_eq, Text.balance, Balance.even, Balance.mk.injEq]
  simp only [isWrappable, Bool.and_eq_true, Bool.not_eq_true', even, closed .paren]
  constructor
  · rintro ⟨⟨⟨⟨word, braces⟩, line⟩, block⟩, -, parens, literal⟩
    exact ⟨⟨word, braces, line, block⟩, parens, literal⟩
  · rintro ⟨⟨word, braces, line, block⟩, parens, literal⟩
    exact ⟨⟨⟨⟨word, braces⟩, line⟩, block⟩, unbraced braces, parens, literal⟩

/-- Where nothing is open behind a semicolon in code, what stands on either side of it can be
wrapped or not on its own. -/
theorem isWrappable_append {piece rest : Text} (inside : (Mode.code.after piece).inCode = true)
    (shut : isWrappable (piece ++ ';' :: rest) = true →
      Bracket.paren.unclosedFrom [] (Mode.code.visible Bracket.paren.isSide 0 (piece ++ [';'])) =
        []) :
    isWrappable (piece ++ ';' :: rest) = true ↔
      isWrappable (piece ++ [';']) = true ∧ isWrappable rest = true := by
  have joined : Alteration.Joined (piece ++ [';']) rest :=
    .of_after (Text.after_semicolon inside) rest
  have regrouped : piece ++ ';' :: rest = (piece ++ [';']) ++ rest := by simp
  have word : Text.containsWord (piece ++ ';' :: rest) "else".toList =
      (Text.containsWord (piece ++ [';']) "else".toList || rest.containsWord "else".toList) := by
    have apart := @Text.containsWord_append_cons "else".toList (by decide) ';' (by decide) rfl piece
    rw [apart, apart]
    exact congrArg (· || _) (Bool.or_false _).symm
  have part {part : Text} (unbroken : ';' ∉ part) (present : Text.contains [] part = false) :
      Text.contains (piece ++ ';' :: rest) part =
        (Text.contains (piece ++ [';']) part || rest.contains part) := by
    rw [Text.contains_append_cons unbroken, Text.contains_append_cons unbroken, present,
      Bool.or_false]
  have braces : (piece ++ ';' :: rest).any (among "\x7b\x7d") =
      ((piece ++ [';']).any (among "\x7b\x7d") || rest.any (among "\x7b\x7d")) := by
    rw [regrouped, List.any_append]
  have literal : Text.unterminated? (piece ++ ';' :: rest) = none ↔
      Text.unterminated? (piece ++ [';']) = none ∧ rest.unterminated? = none := by
    rw [regrouped, Text.unterminated?_append joined]
  have parens (shut : Bracket.paren.unclosedFrom []
      (Mode.code.visible Bracket.paren.isSide 0 (piece ++ [';'])) = []) :
      Bracket.paren.unclosedFrom []
          (Mode.code.visible Bracket.paren.isSide 0 (piece ++ ';' :: rest)) = [] ↔
        Bracket.paren.unclosedFrom [] (Mode.code.visible Bracket.paren.isSide 0 rest) = [] := by
    rw [regrouped, joined.visible, Bracket.unclosedFrom_append, shut,
      Bracket.unclosedFrom_visible, List.map_eq_nil_iff]
  rw [isWrappable_iff] at shut ⊢
  rw [isWrappable_iff, isWrappable_iff, word, braces, part (by decide) rfl, part (by decide) rfl,
    literal]
  rw [word, braces, part (by decide) rfl, part (by decide) rfl, literal] at shut
  simp only [Bool.or_eq_false_iff] at shut ⊢
  constructor
  · intro whole
    have shut := shut whole
    rw [parens shut] at whole
    obtain ⟨⟨⟨word, word'⟩, ⟨braces, braces'⟩, ⟨line, line'⟩, block, block'⟩, parens', literal,
      literal'⟩ := whole
    exact ⟨⟨⟨word, braces, line, block⟩, shut, literal⟩,
      ⟨word', braces', line', block'⟩, parens', literal'⟩
  · rintro ⟨⟨⟨word, braces, line, block⟩, shut, literal⟩,
      ⟨word', braces', line', block'⟩, parens', literal'⟩
    rw [parens shut]
    exact ⟨⟨⟨word, word'⟩, ⟨braces, braces'⟩, ⟨line, line'⟩, block, block'⟩, parens', literal,
      literal'⟩

/-- A stretch of a text that leaves no parenthesis open leaves none open in front of the end
of a statement in it: its closer would make a pair that goes over the semicolon. -/
theorem unclosedFrom_of_endsStatement {front piece rest : Text}
    (settled : Mode.code.after front = .code)
    (cut : (front ++ piece ++ ';' :: rest).endsStatement (front ++ piece).width = true)
    (shut : Bracket.paren.unclosedFrom []
      (Mode.code.visible Bracket.paren.isSide 0 (piece ++ ';' :: rest)) = []) :
    Bracket.paren.unclosedFrom [] (Mode.code.visible Bracket.paren.isSide 0 (piece ++ [';'])) =
      [] := by
  obtain ⟨-, inside, apart⟩ := Text.of_endsStatement cut
  have settled' : Mode.code.after (front ++ (piece ++ [';'])) = .code := by
    rw [← List.append_assoc]
    exact Text.after_semicolon inside
  have settled'' : Mode.code.after (piece ++ [';']) = .code := by
    rwa [Mode.after_append, settled] at settled'
  have joined : Alteration.Joined front (piece ++ [';']) := .of_after settled _
  have joined' : Alteration.Joined (front ++ (piece ++ [';'])) rest :=
    .of_after settled' rest
  have joined'' : Alteration.Joined (piece ++ [';']) rest := .of_after settled'' rest
  have regrouped : piece ++ ';' :: rest = (piece ++ [';']) ++ rest := by simp
  have shown : Mode.code.visible Bracket.paren.isSide 0 (front ++ piece ++ ';' :: rest) =
      Mode.code.visible Bracket.paren.isSide 0 front ++
        Mode.code.visible Bracket.paren.isSide front.width (piece ++ [';']) ++
        Mode.code.visible Bracket.paren.isSide (front ++ (piece ++ [';'])).width rest := by
    rw [List.append_assoc, regrouped, ← List.append_assoc, joined'.visible, joined.visible,
      Nat.zero_add, Nat.zero_add]
  have none : Bracket.paren.unclosedFrom []
      (Mode.code.visible Bracket.paren.isSide front.width (piece ++ [';'])) = [] := by
    apply Bracket.unclosedFrom_eq_nil_of_apart
    · rw [← joined''.visible, ← regrouped, Bracket.unclosedFrom_visible, shut, List.map_nil]
    · intro opened closed opens closes paired
      have silent (mode : Mode) (offset : Nat) :
          mode.visible Bracket.paren.isSide offset [';'] = [] :=
        Mode.visible_eq_nil offset (List.forall_mem_singleton.mpr rfl)
      rw [Mode.visible_append, silent, List.append_nil] at opens
      rw [Bracket.pairs, ← Text.width_append, ← shown, ← Bracket.pairs_codeChars] at paired
      have early := (Mode.of_mem_visible opens).2
      have later := (Mode.of_mem_visible closes).1
      have short := apart .paren _ paired (by rwa [Text.width_append])
      have semicolon : Text.width [';'] = 1 := rfl
      simp only [Text.width_append, semicolon] at short later
      omega
  rw [Bracket.unclosedFrom_visible] at none
  exact List.map_eq_nil_iff.mp none

/-- A body that is read in the middle of a text can be wrapped when each of its pieces can. The
induction is on what is still to be read; `piece` is what has been read of a statement. -/
theorem isWrappable_iff_piecesFrom {text front piece rest : Text}
    (whole : text = front ++ piece ++ rest) (settled : Mode.code.after front = .code) :
    isWrappable (piece ++ rest) = true ↔
      ∀ statement ∈ Text.piecesFrom text.endsStatement (front ++ piece).width piece rest,
        isWrappable statement = true := by
  induction rest generalizing front piece with
  | nil =>
    rw [Text.piecesFrom, List.append_nil]
    split
    · rename_i empty
      rw [List.isEmpty_iff.mp empty]
      simp [show isWrappable [] = true from by decide]
    · simp
  | cons c rest ih =>
    rw [Text.piecesFrom]
    split
    · rename_i cut
      rw [whole] at cut
      obtain ⟨rfl, inside, -⟩ := Text.of_endsStatement cut
      have inside' : (Mode.code.after piece).inCode = true := by
        rwa [Mode.after_append, settled] at inside
      have further := @ih (front ++ piece ++ [';']) [] (by simp [whole])
        (Text.after_semicolon inside)
      rw [List.append_nil, Text.width_append, List.nil_append] at further
      rw [isWrappable_append inside', List.forall_mem_cons, further]
      · rfl
      · intro wrappable
        exact unclosedFrom_of_endsStatement settled cut ((isWrappable_iff _).mp wrappable).2.1
    · have further := @ih front (piece ++ [c]) (by simp [whole]) settled
      rw [← List.append_assoc, Text.width_append, List.append_assoc] at further
      exact further

/-- A body can be wrapped when each of its statements can. -/
theorem isWrappable_iff_statements (body : Text) :
    isWrappable body = true ↔ ∀ statement ∈ body.statements, isWrappable statement = true :=
  @isWrappable_iff_piecesFrom body [] [] body rfl rfl

/-! ### The rules -/

/-- The statements of a body answer for the body. -/
theorem isWrappable_eq_all (body : Text) :
    isWrappable body = body.statements.all isWrappable := by
  rw [Bool.eq_iff_iff, isWrappable_iff_statements, List.all_eq_true]

/-- A bare `if` or `else` in code is reported exactly when each statement of its body can be
wrapped. That body is one statement only if nothing but blanks follows its first one. -/
theorem bare_bodies_by_statements (checker : Checker) (text : Text) :
    checker.ruleFindings text bareIf =
        ((ifPattern.allMatches text).filter fun found =>
          text.layout.inCode found.start && (found.group? 2).any fun body =>
            body.body.statements.all isWrappable).map (bareIf.finding text) ∧
      checker.ruleFindings text bareElse =
        ((elsePattern.allMatches text).filter fun found =>
          text.layout.inCode found.start && (found.group? 1).any fun body =>
            !chains body.body && body.body.statements.all isWrappable).map
          (bareElse.finding text) ∧
      ∀ body : Text, body.statements.flatten = body ∧
        (body.IsOneStatement ↔
          ∀ later ∈ body.statements.tail, ∀ c ∈ later, isBlank c = true) := by
  simp only [← isWrappable_eq_all]
  refine ⟨?_, ?_, fun body => ⟨body.flatten_statements, body.isOneStatement_iff⟩⟩
  · have reported := @Rule.findings?_of_decides bareIf _ rfl checker.globals.knows text
      (fun _ => false) _ fun found _ => Check.decides_pure _
    rw [Checker.ruleFindings, reported]
    rfl
  · have reported := @Rule.findings?_of_decides bareElse _ rfl checker.globals.knows text
      (fun _ => false) _ fun found _ => decides_isBareElse _ _
    rw [Checker.ruleFindings, reported, Option.getD_some]
    congr 1
    apply List.filter_congr
    intro found _
    rw [isReported]
    cases found.group? 1 with
    | none => simp
    | some body => simp [Bool.and_assoc, Bool.and_left_comm]

/-- Two statements on the line of an `if` are wrapped as its body, though the second one stands
outside of it. -/
theorem bare_body_of_two_statements :
    let checker : Checker := ⟨⟨[bareIf]⟩, fun _ => .failed, .none⟩
    let text : Text := "if (a) b(); c();\n".toList
    let body : Text := "b(); c();".toList
    (∃ finding ∈ checker.ruleFindings text bareIf, groupText? finding.groups 2 = some body ∧
      (Repair.run text [finding]).text = "if (a) \x7b b(); c(); \x7d\n".toList) ∧
    body.statements = ["b();".toList, " c();".toList] ∧ ¬body.IsOneStatement := by
  intro checker text body
  have found : ((checker.ruleFindings text bareIf).any fun finding =>
      groupText? finding.groups 2 == some body &&
        (Repair.run text [finding]).text == "if (a) \x7b b(); c(); \x7d\n".toList) = true := by
    decide +kernel
  obtain ⟨finding, member, holds⟩ := List.any_eq_true.mp found
  simp only [Bool.and_eq_true, beq_iff_eq] at holds
  refine ⟨⟨finding, member, holds⟩, by decide +kernel, ?_⟩
  intro one
  have cut : body.endsStatement (Text.width "b()".toList) = true := by decide +kernel
  have blank := one "b()".toList ';' " c();".toList rfl cut 'c' (by decide)
  revert blank
  decide

end Block

end ScriptCheck
