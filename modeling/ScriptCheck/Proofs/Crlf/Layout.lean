import ScriptCheck.Proofs.BodyWords
import ScriptCheck.Proofs.Literals
import ScriptCheck.Proofs.Crlf.Matches

/-!
# Layouts and carriage returns

In a text that continues no literal, the layout of the CRLF text is that of the text
with its offsets moved on. The same characters are code, the same brackets go together and
stay open, the same literal is the first without an end, and the same words stand in the
same bodies. The carriage returns themselves are not asked about.
-/

namespace ScriptCheck

namespace Mode

variable {mode : Mode}

/-- A carriage return shows no more of a slash than a newline. -/
theorem showsCode_head?_crlf (mode : Mode) (c : Char) (right : Text) :
    mode.showsCode c right.crlf.head? = mode.showsCode c right.head? := by
  rw [Text.head?_crlf]
  cases right.head? with
  | none => rfl
  | some d =>
    by_cases newline : d = '\n'
    · subst newline
      cases mode <;> rfl
    · simp [newline]

/-- A character that is not asked for is passed over. -/
theorem visible_cons_of_not {keep : Char → Bool} {c : Char} (skipped : keep c = false)
    (offset : Nat) (rest : Text) :
    mode.visible keep offset (c :: rest) =
      (mode.step c).visible keep (offset + c.utf8Size) rest := by
  simp [visible, skipped]

/-- What is visible in both texts is the same, with offsets moved. The induction is on the text; a
carriage return changes no mode that matters. -/
theorem visible_crlf {keep : Char → Bool} (cr : keep '\r' = false)
    (newline : keep '\n' = false) (left : Text) {right : Text} (proper : mode.Proper)
    (none : mode.ContinuesNone right) :
    mode.visible keep left.crlf.width right.crlf =
      (mode.visible keep left.width right).map fun (offset, c) =>
        ((left ++ right).shifted offset, c) := by
  induction right generalizing mode left with
  | nil => rfl
  | cons c rest ih =>
    have further := ih (left ++ [c]) (proper.step c) none.tail
    rw [List.append_assoc, List.singleton_append, Text.width_append left [c]] at further
    by_cases here : c = '\n'
    · subst here
      have step := step_cr_step proper fun quote escaping => none [] rest quote rfl escaping
      have moved : Text.width (Text.crlf (left ++ ['\n'])) =
          left.crlf.width + '\r'.utf8Size + '\n'.utf8Size := by simp [Nat.add_assoc]
      rw [moved] at further
      rw [Text.crlf_newline, visible_cons_of_not cr, visible_cons_of_not newline,
        visible_cons_of_not newline, step, further]
      rfl
    · have moved : Text.width (Text.crlf (left ++ [c])) =
          left.crlf.width + c.utf8Size := by simp [Text.crlf_cons here]
      have stands : (left ++ c :: rest).shifted left.width = left.crlf.width := by simp
      rw [moved] at further
      rw [Text.crlf_cons here, visible, visible, List.map_append, further]
      congr 1
      cases mode.inCode && keep c <;> simp [stands]

/-! ### Literals -/

/-- A carriage return neither opens a literal nor closes one. -/
theorem inLiteral_step_cr (proper : mode.Proper) :
    (mode.step '\r').inLiteral = mode.inLiteral := by
  cases mode with
  | quoted quote =>
    have other : '\r' ≠ quote := by
      rintro rfl
      cases proper
    simp [step, other]
  | _ => rfl

/-- Nor does a newline open one. -/
theorem inLiteral_of_step_newline (inside : (mode.step '\n').inLiteral = true) :
    mode.inLiteral = true := by
  cases mode with
  | quoted | escaped => rfl
  | _ => cases inside

/-- Only a newline breaks a literal off. -/
theorem breaks_of_ne {c : Char} (other : c ≠ '\n') : mode.breaks c = false := by
  cases mode with
  | quoted quote => simp [breaks, other]
  | _ => rfl

/-- A carriage return saves no literal from its newline, unless behind a backslash. -/
theorem breaks_step_cr (proper : mode.Proper)
    (unescaped : ∀ quote, mode = .escaped quote → quote = backquote) :
    (mode.step '\r').breaks '\n' = mode.breaks '\n' := by
  cases mode with
  | quoted quote =>
    have other : '\r' ≠ quote := by
      rintro rfl
      cases proper
    simp [step, other]
  | escaped quote =>
    obtain rfl := unescaped quote rfl
    rfl
  | _ => rfl

/-- The first literal without an end starts at the same place in both texts. The induction is on the
text and keeps the start of the literal along. -/
theorem broken?_crlf (left : Text) {right : Text} (proper : mode.Proper)
    (none : mode.ContinuesNone right) {opened opened' : Nat}
    (same : mode.inLiteral = true → opened' = (left ++ right).shifted opened) :
    mode.broken? opened' left.crlf.width right.crlf =
      (mode.broken? opened left.width right).map (left ++ right).shifted := by
  induction right generalizing mode left opened opened' with
  | nil =>
    cases inside : mode.inLiteral with
    | false => simp [broken?, inside]
    | true => simp [broken?, inside, same inside]
  | cons c rest ih =>
    have stands : (left ++ c :: rest).shifted left.width = left.crlf.width := by simp
    have further (place place' : Nat)
        (same : (mode.step c).inLiteral = true → place' = (left ++ c :: rest).shifted place) :
        (mode.step c).broken? place' (Text.crlf (left ++ [c])).width (Text.crlf rest) =
          ((mode.step c).broken? place (left.width + c.utf8Size) rest).map
            (left ++ c :: rest).shifted := by
      have moved := @ih (mode.step c) (left ++ [c]) (proper.step c) none.tail
        place place' (by simpa using same)
      rw [List.append_assoc, List.singleton_append, Text.width_append left [c]] at moved
      exact moved
    by_cases here : c = '\n'
    · subst here
      have unescaped (quote : Char) (escaping : mode = .escaped quote) :=
        none [] rest quote rfl escaping
      have moved : Text.width (Text.crlf (left ++ ['\n'])) =
          left.crlf.width + '\r'.utf8Size + '\n'.utf8Size := by simp [Nat.add_assoc]
      rw [moved] at further
      have notCr : mode.breaks '\r' = false := breaks_of_ne (by decide)
      rw [Text.crlf_newline, broken?, broken?, broken?, notCr, if_neg Bool.false_ne_true,
        breaks_step_cr proper unescaped, step_cr_step proper unescaped,
        inLiteral_step_cr proper]
      cases breaking : mode.breaks '\n' with
      | true =>
        have inside : mode.inLiteral = true := by
          cases inside : mode.inLiteral with
          | true => rfl
          | false => simp [breaks_of_not_inLiteral inside] at breaking
        simp [inside, same inside]
      | false =>
        refine further _ _ fun inside => ?_
        have inside' := inLiteral_of_step_newline inside
        simp [inside', same inside']
    · have moved : Text.width (Text.crlf (left ++ [c])) =
          left.crlf.width + c.utf8Size := by simp [Text.crlf_cons here]
      rw [moved] at further
      rw [Text.crlf_cons here, broken?, broken?, breaks_of_ne here, if_neg Bool.false_ne_true,
        if_neg Bool.false_ne_true]
      refine further _ _ fun _ => ?_
      cases inside : mode.inLiteral with
      | true => simp [same inside]
      | false => simp [stands]

/-- A carriage return at the end changes nothing about the last literal. -/
theorem broken?_concat_cr (proper : mode.Proper) (opened offset : Nat) (text : Text) :
    (mode.broken? opened offset (text ++ ['\r'])).isNone =
      (mode.broken? opened offset text).isNone := by
  induction text generalizing mode opened offset with
  | nil =>
    have goesOn : mode.breaks '\r' = false := breaks_of_ne (by decide)
    simp only [List.nil_append, broken?, goesOn, inLiteral_step_cr proper]
    cases mode.inLiteral <;> rfl
  | cons c rest ih =>
    rw [List.cons_append, broken?, broken?]
    split
    · rfl
    · exact ih (proper.step c) _ _

end Mode

namespace Text

variable {text : Text}

/-- The first literal without an end is the same in both forms. -/
theorem unterminated?_crlf (none : Mode.code.ContinuesNone text) :
    text.crlf.unterminated? = text.unterminated?.map text.shifted := by
  rw [unterminated?_eq_broken?, unterminated?_eq_broken?]
  exact @Mode.broken?_crlf .code [] text trivial none 0 0 (by simp [Mode.inLiteral])

/-- A carriage return at the end neither ends a literal nor opens one. -/
theorem unterminated?_concat_cr (text : Text) :
    (unterminated? (text ++ ['\r'])).isNone = text.unterminated?.isNone := by
  rw [unterminated?_eq_broken?, unterminated?_eq_broken?]
  exact @Mode.broken?_concat_cr .code trivial 0 0 text

/-! ### Brackets -/

/-- The brackets of the CRLF text are those of the text, moved. -/
theorem visible_isSide_crlf (kind : Bracket) (none : Mode.code.ContinuesNone text) :
    Mode.code.visible kind.isSide 0 text.crlf =
      (Mode.code.visible kind.isSide 0 text).map fun (offset, c) => (text.shifted offset, c) := by
  have noBracket : kind.isSide '\r' = false ∧ kind.isSide '\n' = false := by
    cases kind <;> exact ⟨rfl, rfl⟩
  exact @Mode.visible_crlf .code kind.isSide noBracket.1 noBracket.2 [] text trivial none

end Text

namespace Bracket

variable {kind : Bracket}

variable {text : Text}

/-- The same brackets go together in both forms. -/
theorem pairs_crlf (none : Mode.code.ContinuesNone text) :
    kind.pairs text.crlf.codeChars =
      (kind.pairs text.codeChars).map fun (opened, closed) =>
        (text.shifted opened, text.shifted closed) := by
  rw [pairs_codeChars, pairs_codeChars, Text.visible_isSide_crlf kind none, ← pairsFrom_map,
    List.map_nil]

/-- The same outermost bracket stays open in both forms. -/
theorem unclosed?_crlf (none : Mode.code.ContinuesNone text) :
    kind.unclosed? text.crlf.codeChars =
      (kind.unclosed? text.codeChars).map text.shifted := by
  rw [unclosed?, unclosed?, unclosedFrom_codeChars, unclosedFrom_codeChars,
    Text.visible_isSide_crlf kind none, ← List.getLast?_map, ← unclosedFrom_map, List.map_nil]

end Bracket

namespace Text

variable {text : Text}

/-- A map that tells offsets apart can be undone in a look-up. -/
theorem lookup_map_shifted (text : Text) (pairs : List (Nat × Nat)) (opened : Nat) :
    (pairs.map fun (first, second) => (text.shifted first, text.shifted second)).lookup
        (text.shifted opened) =
      (pairs.lookup opened).map text.shifted := by
  induction pairs with
  | nil => rfl
  | cons entry rest ih =>
    obtain ⟨first, second⟩ := entry
    rw [List.map_cons, List.lookup_cons, List.lookup_cons, ih]
    have same : (text.shifted opened == text.shifted first) = (opened == first) := by
      rw [Bool.eq_iff_iff, beq_iff_eq, beq_iff_eq, shifted_inj]
    rw [same]
    cases opened == first <;> rfl

/-- The partner of a bracket moves by the carriage returns. -/
theorem matchingClose?_crlf (none : Mode.code.ContinuesNone text) (opened : Nat) :
    text.crlf.layout.matchingClose? (text.shifted opened) =
      (text.layout.matchingClose? opened).map text.shifted := by
  simp only [Layout.matchingClose?, layout, Bracket.pairs_crlf none, ← List.map_append]
  exact lookup_map_shifted text _ opened

/-- The balance names the same brackets and literal, moved. -/
theorem balance_crlf (none : Mode.code.ContinuesNone text) :
    text.crlf.balance =
      ⟨text.balance.brace.map text.shifted, text.balance.paren.map text.shifted,
        text.balance.string.map text.shifted⟩ := by
  simp only [balance, Bracket.unclosed?_crlf none, unterminated?_crlf none]

/-! ### Code -/

/-- Other bytes than a newline's are code in both texts or in none. -/
theorem inCode_crlf_byte {left right : Text} {c : Char}
    (none : Mode.code.ContinuesNone (left ++ c :: right)) (other : c ≠ '\n') {byte : Nat}
    (inside : byte < c.utf8Size) :
    (left ++ c :: right).crlf.layout.inCode (left.crlf.width + byte) =
      (left ++ c :: right).layout.inCode (left.width + byte) := by
  rw [crlf_append, crlf_cons other, inCode_layout_byte _ _ _ inside,
    inCode_layout_byte _ _ _ inside, Mode.showsCode_head?_crlf,
    Mode.code_after_crlf none.front]

/-- A carriage return behind a plain character of code is code. -/
theorem inCode_cr {left right : Text} {c : Char}
    (none : Mode.code.ContinuesNone (left ++ c :: '\n' :: right)) (plain : Mode.isPlain c = true) :
    (left ++ c :: '\n' :: right).crlf.layout.inCode (left.crlf.width + c.utf8Size) =
      (left ++ c :: '\n' :: right).layout.inCode left.width := by
  have other : c ≠ '\n' := (Mode.isPlain_iff.mp plain).2.2.2.1
  have whole : (left ++ c :: '\n' :: right).crlf =
      left.crlf ++ [c] ++ '\r' :: '\n' :: right.crlf := by
    simp [crlf_cons other]
  have place : left.crlf.width + c.utf8Size = (left.crlf ++ [c]).width := by simp
  rw [whole, place, inCode_layout, inCode_layout, Mode.showsCode_of_isPlain (by decide),
    Mode.showsCode_of_isPlain plain, Mode.after_append, Mode.code_after_crlf none.front]
  show ((Mode.code.after left).step c).inCode = _
  rw [Mode.step_of_isPlain plain (Mode.proper_code_after left), Mode.inCode_settled]

/-- A newline behind a plain character of code is code. -/
theorem inCode_newline {left right : Text} {c : Char} (plain : Mode.isPlain c = true)
    (inCode : (left ++ c :: '\n' :: right).layout.inCode left.width = true) :
    (left ++ c :: '\n' :: right).layout.inCode (left.width + c.utf8Size) = true := by
  rw [inCode_layout, Mode.showsCode_of_isPlain plain] at inCode
  have whole : left ++ c :: '\n' :: right = left ++ [c] ++ '\n' :: right := by simp
  have place : left.width + c.utf8Size = (left ++ [c]).width := by simp
  have settles : Mode.code.after (left ++ [c]) = .code := by
    rw [Mode.after_append]
    exact Mode.after_of_inCode inCode (by simp) (by simpa using plain)
  rw [whole, place, inCode_layout, settles]
  rfl

/-- The end of the text is not code. -/
theorem inCode_width (text : Text) : text.layout.inCode text.width = false := by
  rw [Bool.eq_false_iff]
  intro inCode
  exact Nat.lt_irrefl _ (lt_width_of_inCode inCode)

end Text

namespace Cursor.Within

variable {text : Text} {cursor : Cursor}

/-- A place that is not in front of a newline is in code in both texts or in none. -/
theorem inCode_crlf (within : cursor.Within text) (other : cursor.atNewline = false)
    (none : Mode.code.ContinuesNone text) :
    text.crlf.layout.inCode cursor.crlf.offset = text.layout.inCode cursor.offset := by
  rw [within.offset_crlf]
  cases ahead : cursor.after with
  | nil =>
    have whole : text = cursor.before.reverse := by rw [within, ahead, List.append_nil]
    have last : text.shifted text.width = text.crlf.width := by
      simpa using Text.shifted_width text []
    rw [offset_eq, ← whole, last, Text.inCode_width, Text.inCode_width]
  | cons c rest =>
    have notNewline : c ≠ '\n' := by simpa [atNewline, ahead] using other
    rw [within, ahead] at none ⊢
    rw [offset_eq, Text.shifted_width]
    exact Text.inCode_crlf_byte none notNewline c.utf8Size_pos

end Cursor.Within

/-- The text before a place ends in code in both texts or in none. -/
theorem Semicolon.endsInCode_crlf {left right : Text} {c : Char}
    (none : Mode.code.ContinuesNone (left ++ c :: right)) (other : c ≠ '\n') :
    endsInCode (left ++ c :: right).crlf.layout (left.crlf.width + c.utf8Size)
        (left.crlf.width + c.utf8Size - 1) =
      endsInCode (left ++ c :: right).layout (left.width + c.utf8Size)
        (left.width + c.utf8Size - 1) := by
  rw [Text.crlf_append, Text.crlf_cons other, endsInCode_layout, endsInCode_layout,
    Mode.showsCode_head?_crlf, Mode.code_after_crlf none.front]

/-- The same words stand in the code between two places. A word has no line end, so that its
characters and its neighbours keep their roles. -/
theorem Text.wordInCode_crlf {text word : Text} (none : Mode.code.ContinuesNone text)
    (present : word ≠ []) (inLine : ∀ c ∈ word, c ≠ '\r' ∧ c ≠ '\n') (start stop : Nat) :
    text.crlf.WordInCode word (text.shifted start) (text.shifted stop) ↔
      text.WordInCode word start stop := by
  -- The conditions on a place of the word are the same in both texts.
  have same (left right : Text) (whole : text = left ++ word ++ right) :
      (text.shifted start ≤ left.crlf.width ∧
        (left.crlf ++ word).width ≤ text.shifted stop ∧
        text.crlf.layout.inCode left.crlf.width = true ∧
        delimits left.crlf.getLast? = true ∧ delimits right.crlf.head? = true) ↔
      start ≤ left.width ∧ (left ++ word).width ≤ stop ∧
        text.layout.inCode left.width = true ∧ delimits left.getLast? = true ∧
        delimits right.head? = true := by
    have start' : text.shifted left.width = left.crlf.width := by
      rw [whole, List.append_assoc, shifted_width]
    have stop' : text.shifted (left ++ word).width = (left.crlf ++ word).width := by
      rw [whole, shifted_width, crlf_append,
        crlf_of_oneLine fun c listed => (inLine c listed).2]
    have inCode : text.crlf.layout.inCode left.crlf.width =
        text.layout.inCode left.width := by
      obtain ⟨c, word, rfl⟩ := List.exists_cons_of_ne_nil present
      have split : text = left ++ c :: (word ++ right) := by rw [whole]; simp
      rw [split] at none ⊢
      exact inCode_crlf_byte none (inLine c (by simp)).2 c.utf8Size_pos
    rw [getLast?_crlf, delimits_head?_crlf, inCode, ← start', ← stop', ← Nat.not_lt,
      ← Nat.not_lt, shifted_lt_iff, shifted_lt_iff, Nat.not_lt, Nat.not_lt]
  constructor
  · rintro ⟨left', right', whole, stands⟩
    obtain ⟨c, word, rfl⟩ := List.exists_cons_of_ne_nil present
    have split : text.crlf = left' ++ c :: (word ++ right') := by rw [whole]; simp
    obtain ⟨left, rest, rfl, rfl, behind⟩ :=
      exists_of_crlf_eq (inLine c (by simp)).1 (inLine c (by simp)).2 split
    obtain ⟨right, rfl, rfl⟩ :=
      exists_of_crlf_append (fun d listed => inLine d (by simp [listed])) behind.symm
    have whole' : left ++ c :: (word ++ right) = left ++ c :: word ++ right := by simp
    exact ⟨left, right, whole', (same left right whole').mp stands⟩
  · rintro ⟨left, right, whole, stands⟩
    refine ⟨left.crlf, right.crlf, ?_, (same left right whole).mpr stands⟩
    rw [whole, crlf_append, crlf_append,
      crlf_of_oneLine fun c listed => (inLine c listed).2]

end ScriptCheck
