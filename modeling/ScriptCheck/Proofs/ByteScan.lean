import ScriptCheck.Proofs.CodeView
import ScriptCheck.Text.Utf8

/-!
# Reading a text byte by byte

The layout of a text is found character by character. It can be read off the bytes as
well. An index then runs over the UTF-8 form of the text; behind a backslash in a literal
it goes on by two bytes, so that it may come to stand inside a character or past the end.
Where a comment opens, the text is cut at the index.

Here the loops over the bytes are written out, with every access to a byte and every cut
as a step that may fail. A loop that would not go on has no value either. The results
below say that none of this happens on any text, and that the loops find what is found by
character. The reason is always the same: no byte of a character outside ASCII is the
code of an ASCII character, so that an index inside such a character only goes on to its
end, and every decision is made at the start of a character.
-/

namespace ScriptCheck

namespace Text

/-- The byte at an offset, as the character of that code. There is none past the end. -/
def byteAt? (text : Text) (offset : Nat) : Option Char := text.encode[offset]?.map Char.ofUInt8

/-- The byte offset of the first occurrence of a part. -/
def offsetOf? (text part : Text) : Option Nat :=
  if text.startsWith part then
    some 0
  else
    match text with
    | [] => none
    | c :: rest => (offsetOf? rest part).map (c.utf8Size + ·)

/-! ### The loops -/

/-- Go through a literal: the offset at which it stops, which may lie past the end of the
text, and whether a quote closes it. -/
def literalEnd? (text : Text) (quote : Char) (offset : Nat) : Option (Nat × Bool) :=
  if offset < text.width then do
    let byte ← text.byteAt? offset
    if byte = '\\' then
      text.literalEnd? quote (offset + 2)
    else if byte = '\n' ∧ quote ≠ backquote then
      pure (offset, false)
    else if byte = quote then
      pure (offset + 1, true)
    else
      text.literalEnd? quote (offset + 1)
  else
    pure (offset, false)
termination_by text.width - offset

/-- The comment or literal that opens at an offset, if any: the offset at which it stops,
and its kind. -/
def openingAt? (text : Text) (offset : Nat) : Option (Option (Nat × Kind)) := do
  let byte ← text.byteAt? offset
  let next := text.byteAt? (offset + 1)
  if byte = '/' ∧ next = some '/' then
    let rest ← text.from? offset
    pure (some ((rest.offsetOf? ['\n']).elim text.width (offset + ·), .comment))
  else if byte = '/' ∧ next = some '*' then
    let rest ← text.from? (offset + 2)
    pure (some ((rest.offsetOf? ['*', '/']).elim text.width (offset + 2 + · + 2), .comment))
  else if isQuote byte then
    let (stop, closed) ← text.literalEnd? byte (offset + 1)
    pure (some (min stop text.width, if closed then .literal else .unterminated))
  else
    pure none

/-- The code between two offsets; an empty stretch is no region. -/
def codeBetween (start stop : Nat) : List Region :=
  if start < stop then [⟨start, stop, .code⟩] else []

/-- The regions of a text from an offset on, `start` being where the code last began. -/
def regionsFrom? (text : Text) (start offset : Nat) : Option (List Region) :=
  if offset < text.width then do
    match ← text.openingAt? offset with
    | none => text.regionsFrom? start (offset + 1)
    | some (stop, kind) =>
      let others ← if offset < stop then text.regionsFrom? stop stop else none
      pure (codeBetween start offset ++ ⟨offset, stop, kind⟩ :: others)
  else
    pure (codeBetween start text.width)
termination_by text.width - offset

/-- A number of bytes from an offset on, each with its offset. -/
def bytesFrom? (text : Text) (offset : Nat) : Nat → Option (List (Nat × Char))
  | 0 => some []
  | count + 1 => do
    let byte ← text.byteAt? offset
    let others ← text.bytesFrom? (offset + 1) count
    pure ((offset, byte) :: others)

/-- The bytes of the code regions. -/
def codeBytes? (text : Text) : List Region → Option (List (Nat × Char))
  | [] => some []
  | region :: rest => do
    let bytes ←
      if region.kind = .code then text.bytesFrom? region.start (region.stop - region.start)
      else some []
    let others ← text.codeBytes? rest
    pure (bytes ++ others)

/-- The layout of a text, read off its bytes. -/
def byteLayout? (text : Text) : Option Layout := do
  let regions ← text.regionsFrom? 0 0
  let code ← text.codeBytes? regions
  pure
    { regions := regions
      pairs := Bracket.brace.pairs code ++ Bracket.paren.pairs code ++ Bracket.square.pairs code
      balance :=
        { brace := Bracket.brace.unclosed? code
          paren := Bracket.paren.unclosed? code
          string := (regions.find? fun region => region.kind = .unterminated).map Region.start } }

/-! ### The bytes of a character -/

/-- What a byte of a character can be: an ASCII character is its own only byte, and no byte
of another character is an ASCII character. -/
def IsByteOf (byte c : Char) : Prop :=
  c.utf8Size = 1 ∧ byte = c ∨ 1 < c.utf8Size ∧ 1 < byte.utf8Size

variable {byte c : Char} {index offset : Nat} {text : Text}

/-- A property that no character outside ASCII has holds of a byte as of its character. -/
theorem IsByteOf.agree (of : IsByteOf byte c) (property : Char → Bool)
    (ascii : ∀ d : Char, 1 < d.utf8Size → property d = false) : property byte = property c := by
  rcases of with ⟨-, rfl⟩ | ⟨wide, wide'⟩
  · rfl
  · rw [ascii byte wide', ascii c wide]

/-- A byte is an ASCII character exactly if its character is. -/
theorem IsByteOf.eq_iff (of : IsByteOf byte c) {d : Char} (ascii : d.utf8Size = 1) :
    byte = d ↔ c = d := by
  rcases of with ⟨-, rfl⟩ | ⟨wide, wide'⟩
  · rfl
  · constructor <;> rintro rfl <;> omega

/-- A character outside ASCII takes more than one byte. -/
theorem one_lt_utf8Size_iff (c : Char) : 1 < c.utf8Size ↔ 127 < c.val.toNat := by
  have positive : 0 < c.utf8Size := c.utf8Size_pos
  have ascii : c.utf8Size = 1 ↔ c.val.toNat ≤ 127 :=
    Char.utf8Size_eq_one_iff.trans UInt32.le_iff_toNat_le
  omega

/-- Every byte of the UTF-8 form of a character is one of its bytes: the character itself in ASCII,
and otherwise a byte outside ASCII. The forms of each length are gone through. -/
theorem isByteOf_of_mem {byte : UInt8} (listed : byte ∈ String.utf8EncodeChar c) :
    IsByteOf (Char.ofUInt8 byte) c := by
  have code : (Char.ofUInt8 byte).val.toNat = byte.toNat := UInt8.toNat_toUInt32 byte
  have wide : 1 < c.utf8Size ↔ 127 < c.val.toNat := one_lt_utf8Size_iff c
  have positive : 0 < c.utf8Size := c.utf8Size_pos
  by_cases ascii : c.val.toNat ≤ 127
  · have only : byte = UInt8.ofNat c.val.toNat := by
      simpa only [String.utf8EncodeChar, ascii, ↓reduceIte, List.mem_singleton] using listed
    have same : byte.toNat = c.val.toNat := by
      rw [only, UInt8.toNat_ofNat']
      omega
    exact .inl ⟨by omega, Char.ext (UInt32.toNat_inj.mp (code.trans same))⟩
  · have high : 127 < byte.toNat := by
      simp only [String.utf8EncodeChar, ascii, ↓reduceIte] at listed
      split at listed
      · simp only [List.mem_cons, List.not_mem_nil, or_false] at listed
        rcases listed with rfl | rfl <;> rw [UInt8.toNat_ofNat'] <;> omega
      · split at listed
        · simp only [List.mem_cons, List.not_mem_nil, or_false] at listed
          rcases listed with rfl | rfl | rfl <;> rw [UInt8.toNat_ofNat'] <;> omega
        · simp only [List.mem_cons, List.not_mem_nil, or_false] at listed
          rcases listed with rfl | rfl | rfl | rfl <;> rw [UInt8.toNat_ofNat'] <;> omega
    exact .inr ⟨by omega, (one_lt_utf8Size_iff _).mpr (by omega)⟩

/-- A text has as many bytes as it is wide. -/
theorem length_encode (text : Text) : text.encode.length = text.width := by
  induction text with
  | nil => rfl
  | cons c rest ih =>
    have encoded : encode (c :: rest) = String.utf8EncodeChar c ++ encode rest := rfl
    rw [encoded, List.length_append, ih, String.length_utf8EncodeChar, width_cons]

/-- The bytes of two texts in a row come in a row. -/
theorem encode_append (front rest : Text) : encode (front ++ rest) = encode front ++ encode rest :=
  List.flatMap_append

/-- A text that is not empty has bytes. -/
theorem encode_ne_nil (c : Char) (rest : Text) : encode (c :: rest) ≠ [] := by
  have long : 0 < (encode (c :: rest)).length := by
    rw [length_encode, width_cons]
    have positive : 0 < c.utf8Size := c.utf8Size_pos
    omega
  exact List.ne_nil_of_length_pos long

/-- The bytes of a character lie within the text. -/
theorem add_lt_width (before after : Text) (inside : index < c.utf8Size) :
    before.width + index < (before ++ c :: after).width := by
  rw [width_append, width_cons]
  omega

/-- The bytes of a part of a text are bytes of the text. -/
theorem getElem?_encode_middle (left middle right : Text) (inside : index < middle.width) :
    (left ++ (middle ++ right)).encode[left.width + index]? = middle.encode[index]? := by
  rw [← length_encode] at inside ⊢
  rw [encode_append, encode_append, List.getElem?_append_right (Nat.le_add_right _ _),
    Nat.add_sub_cancel_left, List.getElem?_append_left inside]

/-- The bytes of a character follow those in front of it. -/
theorem getElem?_encode_char (before after : Text)
    (inside : index < (String.utf8EncodeChar c).length) :
    (before ++ c :: after).encode[before.width + index]? =
      some (String.utf8EncodeChar c)[index] := by
  have single : encode [c] = String.utf8EncodeChar c := List.append_nil _
  have read := getElem?_encode_middle before [c] after (by rwa [← length_encode, single])
  rwa [single, List.getElem?_eq_getElem inside] at read

/-- At every place inside a character there is a byte of it. -/
theorem exists_byteAt? (before after : Text) (c : Char) (inside : index < c.utf8Size) :
    ∃ byte, (before ++ c :: after).byteAt? (before.width + index) = some byte ∧
      IsByteOf byte c := by
  have inside' : index < (String.utf8EncodeChar c).length := by
    rwa [String.length_utf8EncodeChar]
  refine ⟨_, ?_, isByteOf_of_mem (List.getElem_mem inside')⟩
  rw [byteAt?, getElem?_encode_char before after inside', Option.map_some]

/-- There is a byte exactly at the offsets within the text. -/
theorem byteAt?_isSome_iff (text : Text) (offset : Nat) :
    (text.byteAt? offset).isSome ↔ offset < text.width := by
  simp [byteAt?, length_encode]

/-- Where a byte can be read, the offset lies within the text. -/
theorem lt_width_of_byteAt? (present : text.byteAt? offset = some byte) : offset < text.width :=
  (byteAt?_isSome_iff text offset).mp (by simp [present])

/-- At the start of a character the bytes show whether it is a given ASCII character. -/
theorem byteAt?_width_eq_some_iff (before rest : Text) (ascii : c.utf8Size = 1) :
    (before ++ rest).byteAt? before.width = some c ↔ rest.head? = some c := by
  cases rest with
  | nil =>
    have absent : before.byteAt? before.width = none := by simp [byteAt?, length_encode]
    simp [absent]
  | cons d rest =>
    obtain ⟨byte, present, of⟩ := exists_byteAt? before rest d d.utf8Size_pos
    rw [Nat.add_zero] at present
    rw [present, Option.some.injEq, of.eq_iff ascii, List.head?_cons, Option.some.injEq]

/-- A loop that passes over every byte outside ASCII comes from any place inside a
character to the end of the character. -/
theorem passes_inside {α : Type} (before after : Text) (c : Char) (loop : Nat → α)
    (passes : ∀ offset byte, (before ++ c :: after).byteAt? offset = some byte →
      1 < byte.utf8Size → loop offset = loop (offset + 1))
    (positive : 0 < index) (inside : index ≤ c.utf8Size) :
    loop (before.width + index) = loop (before ++ [c]).width := by
  obtain ⟨left, total⟩ := Nat.exists_eq_add_of_le inside
  induction left generalizing index with
  | zero => simp [total]
  | succ left ih =>
    obtain ⟨byte, present, of⟩ := exists_byteAt? before after c (show index < c.utf8Size by omega)
    have wide : 1 < byte.utf8Size := by
      rcases of with ⟨narrow, -⟩ | ⟨-, wide⟩
      · omega
      · exact wide
    rw [passes _ byte present wide]
    exact @ih (index + 1) (by omega) (by omega) (by omega)

/-! ### Literals -/

/-- A quote takes one byte, whichever of the three it is. -/
theorem utf8Size_of_isQuote (mark : isQuote c = true) : c.utf8Size = 1 := by
  simp only [isQuote, Bool.or_eq_true, beq_iff_eq] at mark
  rcases mark with (rfl | rfl) | rfl <;> rfl

/-- One step through a literal. -/
theorem literalEnd?_step (present : text.byteAt? offset = some byte) (quote : Char) :
    text.literalEnd? quote offset =
      if byte = '\\' then text.literalEnd? quote (offset + 2)
      else if byte = '\n' ∧ quote ≠ backquote then some (offset, false)
      else if byte = quote then some (offset + 1, true)
      else text.literalEnd? quote (offset + 1) := by
  rw [literalEnd?, if_pos (lt_width_of_byteAt? present), present]
  rfl

/-- A literal goes on over a byte outside ASCII. -/
theorem literalEnd?_passes {quote : Char} (mark : isQuote quote = true) (offset : Nat) (byte : Char)
    (present : text.byteAt? offset = some byte) (wide : 1 < byte.utf8Size) :
    text.literalEnd? quote offset = text.literalEnd? quote (offset + 1) := by
  have other {c : Char} (ascii : c.utf8Size = 1) : byte ≠ c := by
    rintro rfl
    omega
  rw [literalEnd?_step present, if_neg (other rfl), if_neg fun newline => other rfl newline.1,
    if_neg (other (utf8Size_of_isQuote mark))]

/-- The bytes of a literal end where its characters do. An escape at the very end passes over the
end of the text by one, hence the minimum. -/
theorem literalEnd?_eq (before rest : Text) {quote : Char} (mark : isQuote quote = true) :
    ∃ stop, (before ++ rest).literalEnd? quote before.width =
        some (stop, (Segment.literalTail quote rest).2) ∧
      min stop (before ++ rest).width =
        before.width + Text.width (Segment.literalTail quote rest).1 := by
  fun_induction Segment.literalTail quote rest generalizing before with
  | case1 =>
    refine ⟨before.width, ?_, by simp⟩
    rw [literalEnd?, if_neg (by simp)]
    rfl
  | case2 =>
    refine ⟨before.width + 2, ?_, by simp [Char.utf8Size]⟩
    rw [literalEnd?_step ((byteAt?_width_eq_some_iff before _ rfl).mpr rfl), if_pos rfl,
      literalEnd?, if_neg (by simp [Char.utf8Size])]
    rfl
  | case3 c rest tail closed inner ih =>
    obtain ⟨stop, ended, wide⟩ := ih (before ++ ['\\', c])
    have escape : (before ++ '\\' :: c :: rest).byteAt? before.width = some '\\' :=
      (byteAt?_width_eq_some_iff before _ rfl).mpr rfl
    -- Two bytes on, the index may stand inside the character that the backslash takes along.
    have escaped := passes_inside (before ++ ['\\']) rest c _ (literalEnd?_passes mark)
      Nat.one_pos c.utf8Size_pos
    have ahead : (before ++ ['\\']).width + 1 = before.width + 2 := by simp [Char.utf8Size]
    simp only [List.append_assoc, List.cons_append, List.nil_append, inner] at escaped ended wide
    refine ⟨stop, ?_, ?_⟩
    · rw [literalEnd?_step escape, if_pos rfl, ← ahead, escaped, ended]
    · rw [wide]
      simp [Nat.add_assoc]
  | case4 rest notLone notEscape =>
    have present : (before ++ quote :: rest).byteAt? before.width = some quote :=
      (byteAt?_width_eq_some_iff before _ (utf8Size_of_isQuote mark)).mpr rfl
    have notBackslash : quote ≠ '\\' := by
      rintro rfl
      simp [isQuote, backquote] at mark
    have notNewline : quote ≠ '\n' := by
      rintro rfl
      simp [isQuote, backquote] at mark
    refine ⟨before.width + 1, ?_, ?_⟩
    · rw [literalEnd?_step present, if_neg notBackslash, if_neg fun newline => notNewline newline.1,
        if_pos rfl]
    · simp [utf8Size_of_isQuote mark]
  | case5 c rest notLone notEscape notQuote newline =>
    obtain ⟨rfl, spans⟩ := newline
    have present : (before ++ '\n' :: rest).byteAt? before.width = some '\n' :=
      (byteAt?_width_eq_some_iff before _ rfl).mpr rfl
    refine ⟨before.width, ?_, by simp⟩
    rw [literalEnd?_step present, if_neg (by decide), if_pos ⟨rfl, spans⟩]
  | case6 c rest notLone notEscape notQuote notEnd tail closed inner ih =>
    obtain ⟨stop, ended, wide⟩ := ih (before ++ [c])
    have notBackslash : c ≠ '\\' := by
      rintro rfl
      cases rest with
      | nil => exact notLone rfl rfl
      | cons d rest => exact notEscape d rest rfl rfl
    obtain ⟨byte, present, of⟩ := exists_byteAt? before rest c c.utf8Size_pos
    have inside :=
      passes_inside before rest c _ (literalEnd?_passes mark) Nat.one_pos c.utf8Size_pos
    simp only [List.append_assoc, List.cons_append, List.nil_append, inner] at ended wide
    refine ⟨stop, ?_, ?_⟩
    · rw [← Nat.add_zero before.width, literalEnd?_step present,
        if_neg (mt (of.eq_iff rfl).mp notBackslash),
        if_neg fun newline => notEnd ⟨(of.eq_iff rfl).mp newline.1, newline.2⟩,
        if_neg (mt (of.eq_iff (utf8Size_of_isQuote mark)).mp notQuote), inside, ended]
    · rw [wide]
      simp [Nat.add_assoc]

/-! ### Comments and literals -/

/-- A line comment stops at the first newline, or with the text. Looking for the offset and taking
characters come to the same. -/
theorem offsetOf?_newline (text : Text) (offset : Nat) :
    (text.offsetOf? ['\n']).elim (offset + text.width) (offset + ·) =
      offset + Text.width (text.takeWhile (· ≠ '\n')) := by
  induction text generalizing offset with
  | nil => rfl
  | cons c rest ih =>
    by_cases newline : c = '\n'
    · simp [offsetOf?, startsWith, newline]
    · have other : '\n' ≠ c := fun same => newline same.symm
      have kept : (c :: rest).takeWhile (· ≠ '\n') = c :: rest.takeWhile (· ≠ '\n') :=
        List.takeWhile_cons_of_pos (by simpa using newline)
      rw [kept, width_cons, width_cons, ← Nat.add_assoc, ← Nat.add_assoc,
        ← ih (offset + c.utf8Size)]
      cases further : offsetOf? rest ['\n'] <;>
        simp [offsetOf?, startsWith, other, further, Nat.add_assoc]

/-- A block comment stops behind the first closing mark, or with the text. The induction is that of
the search for the mark. -/
theorem offsetOf?_commentEnd (text : Text) (offset : Nat) :
    (text.offsetOf? ['*', '/']).elim (offset + text.width) (offset + · + 2) =
      offset + Text.width (Segment.throughCommentEnd text) := by
  fun_induction Segment.throughCommentEnd text generalizing offset with
  | case1 rest => simp [offsetOf?, startsWith, Char.utf8Size]
  | case2 c rest notEnd ih =>
    have later : Text.startsWith (c :: rest) ['*', '/'] = false := by
      cases starts : Text.startsWith (c :: rest) ['*', '/'] with
      | false => rfl
      | true =>
        obtain ⟨tail, whole⟩ := List.isPrefixOf_iff_prefix.mp starts
        obtain ⟨rfl, rfl⟩ : '*' = c ∧ '/' :: tail = rest := by simpa using whole
        exact (notEnd tail rfl rfl).elim
    rw [width_cons, width_cons, ← Nat.add_assoc, ← Nat.add_assoc,
      ← ih (offset + c.utf8Size)]
    cases further : offsetOf? rest ['*', '/'] <;> simp [offsetOf?, later, further, Nat.add_assoc]
  | case3 => rfl

/-- Only a slash or a quote opens anything. -/
theorem opening?_of_ne {rest : Text} (slash : c ≠ '/') :
    Segment.opening? (c :: rest) =
      if isQuote c then
        some ⟨if (Segment.literalTail c rest).2 then .literal else .unterminated,
          c :: (Segment.literalTail c rest).1⟩
      else none := by
  unfold Segment.opening?
  split <;> simp_all

/-- What opens at a slash depends on the next character, which is read as a byte: a second slash or
a star opens a comment. -/
theorem openingAt?_slash (before rest : Text) :
    (before ++ '/' :: rest).openingAt? before.width =
      some ((Segment.opening? ('/' :: rest)).map fun segment =>
        (before.width + segment.body.width, segment.kind)) := by
  have present : (before ++ '/' :: rest).byteAt? before.width = some '/' :=
    (byteAt?_width_eq_some_iff before _ rfl).mpr rfl
  have next {d : Char} (ascii : d.utf8Size = 1) :
      (before ++ '/' :: rest).byteAt? (before.width + 1) = some d ↔ rest.head? = some d := by
    simpa [Char.utf8Size] using byteAt?_width_eq_some_iff (before ++ ['/']) rest ascii
  by_cases line : rest.head? = some '/'
  · obtain ⟨rest, rfl⟩ := List.head?_eq_some_iff.mp line
    have second : (before ++ '/' :: '/' :: rest).byteAt? (before.width + 1) = some '/' :=
      (next rfl).mpr rfl
    have whole : (before ++ '/' :: '/' :: rest).from? before.width = some ('/' :: '/' :: rest) :=
      from?_width _ _
    have kept : ('/' :: '/' :: rest).takeWhile (· ≠ '\n') =
      '/' :: '/' :: rest.takeWhile (· ≠ '\n') := rfl
    simp only [openingAt?, present, second, whole, Option.bind_eq_bind, Option.bind_some, and_self,
      ↓reduceIte, Option.pure_def, width_append, offsetOf?_newline, kept, Segment.opening?,
      Option.map_some]
  by_cases block : rest.head? = some '*'
  · obtain ⟨rest, rfl⟩ := List.head?_eq_some_iff.mp block
    have second : (before ++ '/' :: '*' :: rest).byteAt? (before.width + 1) = some '*' :=
      (next rfl).mpr rfl
    have behind : (before ++ '/' :: '*' :: rest).from? (before.width + 2) = some rest := by
      simpa [Char.utf8Size] using from?_width (before ++ ['/', '*']) rest
    have opened (tail : Text) :
        before.width + Text.width ('/' :: '*' :: tail) = before.width + 2 + tail.width := by
      have slash : '/'.utf8Size = 1 := rfl
      have star : '*'.utf8Size = 1 := rfl
      rw [width_cons, width_cons, slash, star]
      omega
    simp only [openingAt?, present, second, behind, Option.bind_eq_bind, Option.bind_some, and_self,
      Option.some.injEq, Char.reduceEq, and_false, ↓reduceIte, Option.pure_def, width_append,
      opened, offsetOf?_commentEnd, Segment.opening?, Option.map_some]
  · have notLine := mt (next (d := '/') rfl).mp line
    have notBlock := mt (next (d := '*') rfl).mp block
    have nothing : Segment.opening? ('/' :: rest) = none := by
      cases rest with
      | nil => rfl
      | cons d rest =>
        have slash : d ≠ '/' := by simpa using line
        have star : d ≠ '*' := by simpa using block
        simp [Segment.opening?, slash, star, isQuote, backquote]
    simp [openingAt?, present, notLine, notBlock, nothing, isQuote, backquote]

/-- What opens at a character is found from its bytes, with the same end and the same kind. The
cases are a slash, a quote and all others. -/
theorem openingAt?_eq (before rest : Text) (c : Char) :
    (before ++ c :: rest).openingAt? before.width =
      some ((Segment.opening? (c :: rest)).map fun segment =>
        (before.width + segment.body.width, segment.kind)) := by
  by_cases slash : c = '/'
  · subst slash
    exact openingAt?_slash before rest
  obtain ⟨byte, present, of⟩ := exists_byteAt? before rest c c.utf8Size_pos
  rw [Nat.add_zero] at present
  have notSlash : byte ≠ '/' := mt (of.eq_iff rfl).mp slash
  have quotes : isQuote byte = isQuote c := of.agree isQuote fun d wide => by
    cases mark : isQuote d with
    | false => rfl
    | true => exact absurd (utf8Size_of_isQuote mark) (by omega)
  rw [opening?_of_ne slash]
  cases mark : isQuote c with
  | false => simp [openingAt?, present, notSlash, quotes, mark]
  | true =>
    obtain rfl : byte = c := (of.eq_iff (utf8Size_of_isQuote mark)).mpr rfl
    obtain ⟨stop, ended, wide⟩ := literalEnd?_eq (before ++ [byte]) rest mark
    have first : (before ++ [byte]).width = before.width + 1 := by
      simp [utf8Size_of_isQuote mark]
    rw [List.append_assoc, List.singleton_append, first] at ended wide
    simp only [openingAt?, present, notSlash, mark, ended, wide, Option.bind_eq_bind,
      Option.bind_some, false_and, ↓reduceIte, Option.pure_def, Option.map_some, width_cons,
      utf8Size_of_isQuote mark, Nat.add_assoc]

/-- Nothing opens inside a character. -/
theorem openingAt?_of_wide (present : text.byteAt? offset = some byte) (wide : 1 < byte.utf8Size) :
    text.openingAt? offset = some none := by
  have notSlash : byte ≠ '/' := by
    rintro rfl
    exact absurd wide (by decide)
  have notQuote : isQuote byte = false := by
    cases mark : isQuote byte with
    | false => rfl
    | true =>
      have narrow : byte.utf8Size = 1 := utf8Size_of_isQuote mark
      omega
  simp [openingAt?, present, notSlash, notQuote]

/-! ### Regions -/

/-- What opens takes at least one byte. -/
theorem width_pos_of_opening? {segment : Segment} (opening : Segment.opening? text = some segment) :
    0 < segment.body.width := by
  obtain ⟨_, _, passes⟩ := Mode.passes_of_opening? opening (.code _)
  exact Nat.pos_of_ne_zero (mt (width_eq_zero_iff _).mp passes.present)

/-- Where nothing opens, the loop goes on with the next byte. -/
theorem regionsFrom?_of_none (start : Nat) (inside : offset < text.width)
    (opening : text.openingAt? offset = some none) :
    text.regionsFrom? start offset = text.regionsFrom? start (offset + 1) := by
  rw [regionsFrom?, if_pos inside, opening]
  rfl

/-- Where something opens, the loop adds its region and goes on. -/
theorem regionsFrom?_of_some {stop : Nat} {kind : Kind} (start : Nat) (inside : offset < text.width)
    (opening : text.openingAt? offset = some (some (stop, kind))) (ahead : offset < stop) :
    text.regionsFrom? start offset = (text.regionsFrom? stop stop).map fun others =>
      codeBetween start offset ++ ⟨offset, stop, kind⟩ :: others := by
  rw [regionsFrom?, if_pos inside, opening, Option.map_eq_bind]
  simp only [Option.bind_eq_bind, Option.bind_some, if_pos ahead]
  rfl

/-- A character that opens nothing is passed over in one go. -/
theorem regionsFrom?_char (before after : Text) (c : Char) (start : Nat)
    (plain : Segment.opening? (c :: after) = none) :
    (before ++ c :: after).regionsFrom? start before.width =
      (before ++ c :: after).regionsFrom? start (before ++ [c]).width := by
  have positive : 0 < c.utf8Size := c.utf8Size_pos
  have inside : before.width < (before ++ c :: after).width := add_lt_width before after positive
  have opening : (before ++ c :: after).openingAt? before.width = some none := by
    rw [openingAt?_eq, plain, Option.map_none]
  rw [regionsFrom?_of_none start inside opening]
  exact passes_inside before after c ((before ++ c :: after).regionsFrom? start)
    (fun offset byte present wide =>
      regionsFrom?_of_none start (lt_width_of_byteAt? present) (openingAt?_of_wide present wide))
    Nat.one_pos positive

/-- A stretch in which nothing opens is passed over. -/
theorem regionsFrom?_plain (before body rest : Text) (start : Nat)
    (plain : ∀ front c back, body = front ++ c :: back →
      Segment.opening? (c :: (back ++ rest)) = none) :
    (before ++ (body ++ rest)).regionsFrom? start before.width =
      (before ++ (body ++ rest)).regionsFrom? start (before ++ body).width := by
  induction body generalizing before with
  | nil => simp
  | cons c body ih =>
    have passed := regionsFrom?_char before (body ++ rest) c start (plain [] c body rfl)
    have further := ih (before ++ [c]) fun front d back split =>
      plain (c :: front) d back (by rw [split, List.cons_append])
    simp only [List.append_assoc, List.singleton_append] at further
    rw [List.cons_append, passed, further]

/-- The code in front of an offset is set apart where the text ends or something opens. -/
theorem regionsFrom?_start (start : Nat)
    (ends : offset = text.width ∨ ∃ stop kind, offset < text.width ∧ offset < stop ∧
      text.openingAt? offset = some (some (stop, kind))) :
    text.regionsFrom? start offset =
      (text.regionsFrom? offset offset).map (codeBetween start offset ++ ·) := by
  have none' : codeBetween offset offset = [] := if_neg (Nat.lt_irrefl _)
  rcases ends with rfl | ⟨stop, kind, inside, ahead, opening⟩
  · have ended (first : Nat) :
        text.regionsFrom? first text.width = some (codeBetween first text.width) := by
      rw [regionsFrom?, if_neg (Nat.lt_irrefl _)]
      rfl
    rw [ended, ended, none', Option.map_some, List.append_nil]
  · rw [regionsFrom?_of_some start inside opening ahead,
      regionsFrom?_of_some offset inside opening ahead]
    simp only [none', List.nil_append, Option.map_map, Function.comp_def]

/-- The end of a text and the start of a comment or literal in it, as the loop sees them. -/
theorem ends_or_openingAt? (before rest : Text)
    (ends : rest = [] ∨ (Segment.opening? rest).isSome) :
    before.width = (before ++ rest).width ∨ ∃ stop kind, before.width < (before ++ rest).width ∧
      before.width < stop ∧
      (before ++ rest).openingAt? before.width = some (some (stop, kind)) := by
  cases rest with
  | nil => exact .inl (by simp)
  | cons c rest =>
    obtain ⟨segment, opens⟩ := Option.isSome_iff_exists.mp (ends.resolve_left (by simp))
    have opening := openingAt?_eq before rest c
    rw [opens, Option.map_some] at opening
    exact .inr ⟨_, _, add_lt_width before rest c.utf8Size_pos,
      Nat.lt_add_of_pos_right (width_pos_of_opening? opens), opening⟩

end Text

/-- The regions that the loop finds are those of the segments. The induction is on the segments: one
of code is passed over, the others open at once. -/
theorem Laid.regionsFrom?_eq {rest : Text} {segments : List Segment} (laid : Laid rest segments)
    (before : Text) :
    (before ++ rest).regionsFrom? before.width before.width =
      some (Segment.placeFrom before.width segments) := by
  induction laid generalizing before with
  | done =>
    rw [Text.regionsFrom?, if_neg (by simp)]
    simp [Text.codeBetween, Segment.placeFrom]
  | opened opening further ih =>
    rename_i segment rest others
    obtain ⟨_, _, passes⟩ := Mode.passes_of_opening? opening (.code _)
    obtain ⟨c, body, whole⟩ := List.exists_cons_of_ne_nil passes.present
    have inside : before.width < (before ++ (segment.body ++ rest)).width := by
      rw [whole, List.cons_append]
      exact Text.add_lt_width before _ c.utf8Size_pos
    have found : (before ++ (segment.body ++ rest)).openingAt? before.width =
        some (some (before.width + segment.body.width, segment.kind)) := by
      have found' := Text.openingAt?_eq before (body ++ rest) c
      rwa [← List.cons_append, ← whole, opening, Option.map_some] at found'
    have behind := ih (before ++ segment.body)
    rw [List.append_assoc, Text.width_append] at behind
    have ahead : before.width < before.width + segment.body.width :=
      Nat.lt_add_of_pos_right (Text.width_pos_of_opening? opening)
    rw [Text.regionsFrom?_of_some _ inside found ahead, behind]
    simp [Text.codeBetween, Segment.placeFrom]
  | code present plain ends further ih =>
    rename_i body rest others
    have passed := Text.regionsFrom?_plain before body rest before.width plain
    have behind := ih (before ++ body)
    have first := Text.regionsFrom?_start before.width
      (Text.ends_or_openingAt? (before ++ body) rest ends)
    have nonempty : 0 < Text.width body :=
      Nat.pos_of_ne_zero (mt (Text.width_eq_zero_iff body).mp present)
    rw [behind, List.append_assoc, Option.map_some] at first
    rw [passed, first]
    simp [Text.codeBetween, Segment.placeFrom, nonempty]

/-! ### Brackets -/

/-- Whether a placed character, or a placed byte, is an ASCII character. -/
def isAsciiAt (placed : Nat × Char) : Bool := placed.2.utf8Size == 1

namespace Bracket

variable {kind : Bracket} {code code' : List (Nat × Char)}

/-- All brackets are ASCII characters. -/
theorem isAsciiAt_opener_closer (kind : Bracket) (offset : Nat) :
    isAsciiAt (offset, kind.opener) = true ∧ isAsciiAt (offset, kind.closer) = true := by
  cases kind <;> exact ⟨rfl, rfl⟩

/-- The same ASCII characters make the same pairs of brackets. -/
theorem pairs_congr (same : code.filter isAsciiAt = code'.filter isAsciiAt) :
    kind.pairs code = kind.pairs code' := by
  rw [pairs, pairs, ← pairsFrom_filter kind.isAsciiAt_opener_closer, same,
    pairsFrom_filter kind.isAsciiAt_opener_closer]

/-- The same ASCII characters leave the same bracket open. -/
theorem unclosed?_congr (same : code.filter isAsciiAt = code'.filter isAsciiAt) :
    kind.unclosed? code = kind.unclosed? code' := by
  rw [unclosed?, unclosed?, ← unclosedFrom_filter kind.isAsciiAt_opener_closer, same,
    unclosedFrom_filter kind.isAsciiAt_opener_closer]

end Bracket

namespace Text

/-- Bytes that can be read in two stretches in a row can be read at once, the second stretch behind
the first. -/
theorem bytesFrom?_append {text : Text} {offset count count' : Nat}
    {first second : List (Nat × Char)}
    (read : text.bytesFrom? offset count = some first)
    (read' : text.bytesFrom? (offset + count) count' = some second) :
    text.bytesFrom? offset (count + count') = some (first ++ second) := by
  induction count generalizing offset first with
  | zero =>
    obtain rfl : [] = first := Option.some.inj read
    simpa using read'
  | succ count ih =>
    obtain ⟨byte, present, further⟩ := Option.bind_eq_some_iff.mp read
    obtain ⟨others, read'', same⟩ := Option.bind_eq_some_iff.mp further
    obtain rfl : (offset, byte) :: others = first := Option.some.inj same
    have behind : text.bytesFrom? (offset + 1 + count) count' = some second := by
      rwa [Nat.add_assoc, Nat.add_comm 1]
    have joined := ih read'' behind
    rw [Nat.add_right_comm, bytesFrom?, present, joined]
    rfl

/-- The bytes of a character outside ASCII can be read, and none is an ASCII character. -/
theorem bytesFrom?_wide (before after : Text) {c : Char} (wide : 1 < c.utf8Size) {index count : Nat}
    (total : index + count = c.utf8Size) :
    ∃ bytes, (before ++ c :: after).bytesFrom? (before.width + index) count = some bytes ∧
      bytes.filter isAsciiAt = [] := by
  induction count generalizing index with
  | zero => exact ⟨[], rfl, rfl⟩
  | succ count ih =>
    obtain ⟨byte, present, of⟩ := exists_byteAt? before after c (show index < c.utf8Size by omega)
    obtain ⟨others, read, kept⟩ := @ih (index + 1) (by omega)
    have hidden : isAsciiAt (before.width + index, byte) = false := by
      rcases of with ⟨narrow, -⟩ | ⟨-, wide'⟩
      · omega
      · exact beq_eq_false_iff_ne.mpr (show byte.utf8Size ≠ 1 by omega)
    refine ⟨(before.width + index, byte) :: others, ?_, by simp [hidden, kept]⟩
    rw [bytesFrom?, present, Option.bind_eq_bind, Option.bind_some, Nat.add_assoc, read]
    rfl

/-- The bytes of a character can be read, and hold the character if it is an ASCII one. -/
theorem bytesFrom?_char (before after : Text) (c : Char) :
    ∃ bytes, (before ++ c :: after).bytesFrom? before.width c.utf8Size = some bytes ∧
      bytes.filter isAsciiAt = [(before.width, c)].filter isAsciiAt := by
  have positive : 0 < c.utf8Size := c.utf8Size_pos
  by_cases ascii : c.utf8Size = 1
  · have present : (before ++ c :: after).byteAt? before.width = some c :=
      (byteAt?_width_eq_some_iff before _ ascii).mpr rfl
    refine ⟨[(before.width, c)], ?_, rfl⟩
    rw [ascii, bytesFrom?, present]
    rfl
  · obtain ⟨bytes, read, kept⟩ := bytesFrom?_wide before after (show 1 < c.utf8Size by omega)
      (Nat.zero_add _)
    exact ⟨bytes, read, by simp [kept, isAsciiAt, ascii]⟩

/-- The bytes of a stretch can be read, and hold its ASCII characters. -/
theorem bytesFrom?_body (before body rest : Text) :
    ∃ bytes, (before ++ (body ++ rest)).bytesFrom? before.width body.width = some bytes ∧
      bytes.filter isAsciiAt = (body.placedFrom before.width).filter isAsciiAt := by
  induction body generalizing before with
  | nil => exact ⟨[], rfl, rfl⟩
  | cons c body ih =>
    obtain ⟨first, read, kept⟩ := bytesFrom?_char before (body ++ rest) c
    obtain ⟨second, read', kept'⟩ := ih (before ++ [c])
    simp only [List.append_assoc, List.singleton_append, width_append, width_cons, width_nil,
      Nat.add_zero] at read' kept'
    refine ⟨first ++ second, bytesFrom?_append read read', ?_⟩
    rw [List.filter_append, kept, kept', ← List.filter_append]
    rfl

/-- The bytes of the code regions can be read, and hold the ASCII characters of the code. -/
theorem codeBytes?_placeFrom (before : Text) (segments : List Segment) :
    ∃ bytes, (before ++ segments.flatMap Segment.body).codeBytes?
        (Segment.placeFrom before.width segments) = some bytes ∧
      bytes.filter isAsciiAt = (Segment.codeFrom before.width segments).filter isAsciiAt := by
  induction segments generalizing before with
  | nil => exact ⟨[], rfl, rfl⟩
  | cons segment segments ih =>
    obtain ⟨second, read', kept'⟩ := ih (before ++ segment.body)
    obtain ⟨first, read, kept⟩ :=
      bytesFrom?_body before segment.body (segments.flatMap Segment.body)
    rw [List.append_assoc, width_append] at read'
    rw [width_append] at kept'
    by_cases kind : segment.kind = .code
    · refine ⟨first ++ second, ?_, ?_⟩
      · simp [codeBytes?, Segment.placeFrom, kind, read, read']
      · simp [Segment.codeFrom, kind, kept, kept']
    · refine ⟨second, ?_, ?_⟩
      · simp [codeBytes?, Segment.placeFrom, kind, read']
      · simp [Segment.codeFrom, kind, kept']

/-- The layout of a text can be read off its bytes. -/
theorem byteLayout?_eq (text : Text) : text.byteLayout? = some text.layout := by
  have regions : text.regionsFrom? 0 0 = some text.regions := text.laid_segments.regionsFrom?_eq []
  obtain ⟨code, read, kept⟩ := codeBytes?_placeFrom [] text.segments
  rw [List.nil_append, text.laid_segments.flatMap_body] at read
  have read' : text.codeBytes? text.regions = some code := read
  have kept' : code.filter isAsciiAt = text.codeChars.filter isAsciiAt := kept
  simp only [byteLayout?, regions, read', Option.bind_eq_bind, Option.bind_some, Option.pure_def,
    layout, balance, Bracket.pairs_congr kept', Bracket.unclosed?_congr kept', unterminated?]

end Text

end ScriptCheck
