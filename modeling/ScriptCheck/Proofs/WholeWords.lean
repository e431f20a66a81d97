import ScriptCheck.Proofs.ByteScan
import ScriptCheck.Text.Identifier

/-!
# Whole words and the bytes beside them

A whole word is looked for character by character: it occurs in the text, and no
identifier character stands on either side. It can be looked for in the bytes as well. An
index then goes from one occurrence to the next. Where an identifier byte stands beside an
occurrence, the search is taken up again one byte behind its start, or at the first place
after that at which the text can be cut. Here that loop is written out, with every access
to a byte and every cut as a step that may fail. A loop that would not go on has no value
either.

The loop always gives an answer, from every offset at which the text can be cut. The answer
is yes exactly if from there on the word stands by itself at some offset: the slice of the
word's width is the word, and neither the byte in front of it nor the one behind it, if
there is one, is an identifier byte. No occurrence is passed over because it overlaps one
that was turned down, since the search goes on inside that one.

An occurrence may be sought in the bytes without regard to characters. Only the first
byte of a character can start one, so that the bytes of a word show nowhere but where the
word does.
-/

namespace ScriptCheck.Text

/-! ### The loop -/

/-- The first offset, from the given one on, at which the text can be cut. -/
def boundaryFrom? (text : Text) (offset : Nat) : Option Nat :=
  if (text.splitAt? offset).isSome then some offset
  else if offset < text.width then text.boundaryFrom? (offset + 1)
  else none
termination_by text.width - offset

/-- Whether a word may start at an offset: no identifier byte stands in front of it. -/
def mayStart? (text : Text) (offset : Nat) : Option Bool :=
  if offset = 0 then some true
  else (text.byteAt? (offset - 1)).map fun byte => !isIdentifierChar byte

/-- Whether a word may stop at an offset: no identifier byte stands behind it. -/
def mayStop? (text : Text) (offset : Nat) : Option Bool :=
  if text.width ≤ offset then some true
  else (text.byteAt? offset).map fun byte => !isIdentifierChar byte

/-- Whether a word occurs from an offset on with no identifier byte on either side. -/
def wordFrom? (text word : Text) (offset : Nat) : Option Bool := do
  let rest ← text.from? offset
  match rest.offsetOf? word with
  | none => pure false
  | some ahead =>
    let starts ← text.mayStart? (offset + ahead)
    let stops ← text.mayStop? (offset + ahead + word.width)
    if starts && stops then
      pure true
    else
      let next ← text.boundaryFrom? (offset + ahead + 1)
      if offset < next ∧ next ≤ text.width then text.wordFrom? word next else none
termination_by text.width - offset

/-- A word stands by itself at an offset: the slice of its width is the word, and neither the
byte in front of the slice nor the one behind it, if there is one, is an identifier byte. -/
structure AloneAt (text word : Text) (place : Nat) : Prop where
  cut : text.slice? place (place + word.width) = some word
  before : 0 < place → (text.byteAt? (place - 1)).any isIdentifierChar = false
  after : (text.byteAt? (place + word.width)).any isIdentifierChar = false

instance (text word : Text) (place : Nat) : Decidable (text.AloneAt word place) :=
  decidable_of_iff (text.slice? place (place + word.width) = some word ∧
      (0 < place → (text.byteAt? (place - 1)).any isIdentifierChar = false) ∧
      (text.byteAt? (place + word.width)).any isIdentifierChar = false)
    ⟨fun ⟨cut, before, after⟩ => ⟨cut, before, after⟩,
      fun ⟨cut, before, after⟩ => ⟨cut, before, after⟩⟩

variable {word : Text}

/-! ### Words between characters -/

/-- A word is contained behind a previous character exactly if it stands somewhere with no
identifier character on either side. -/
theorem containsWordAfter_iff (present : word ≠ []) (previous : Option Char) (text : Text) :
    containsWordAfter word previous text = true ↔
      ∃ left right, text = left ++ word ++ right ∧
        delimits (left.getLast?.or previous) = true ∧ delimits right.head? = true := by
  induction text generalizing previous with
  | nil =>
    have absent : startsWith [] word = false := by
      obtain ⟨c, word, rfl⟩ := List.exists_cons_of_ne_nil present
      rfl
    simp [containsWordAfter, absent, present]
  | cons c rest ih =>
    have last (left : Text) : (c :: left).getLast?.or previous = left.getLast?.or (some c) := by
      rw [List.getLast?_cons]
      cases left.getLast? <;> rfl
    rw [containsWordAfter, Bool.or_eq_true, ih]
    constructor
    · rintro (here | ⟨left, right, rfl, before, behind⟩)
      · simp only [Bool.and_eq_true] at here
        obtain ⟨⟨starts, before⟩, behind⟩ := here
        obtain ⟨right, whole⟩ := List.isPrefixOf_iff_prefix.mp starts
        rw [← whole, List.drop_left] at behind
        exact ⟨[], right, by rw [← whole]; rfl, before, behind⟩
      · exact ⟨c :: left, right, rfl, by rwa [last], behind⟩
    · rintro ⟨left, right, whole, before, behind⟩
      cases left with
      | nil =>
        have starts : startsWith (c :: rest) word = true :=
          List.isPrefixOf_iff_prefix.mpr ⟨right, whole.symm⟩
        have dropped : (c :: rest).drop word.length = right := by
          rw [whole, List.nil_append, List.drop_left]
        rw [dropped]
        exact .inl (by simp [starts, behind]; exact before)
      | cons d left =>
        obtain ⟨rfl, further⟩ : c = d ∧ rest = left ++ word ++ right := by simpa using whole
        exact .inr ⟨left, right, further, by rwa [← last], behind⟩

/-- A word is contained where it stands apart from identifiers. -/
theorem containsWord_iff (present : word ≠ []) (text : Text) :
    text.containsWord word = true ↔ ∃ left right, text = left ++ word ++ right ∧
      delimits left.getLast? = true ∧ delimits right.head? = true := by
  simpa [containsWord] using containsWordAfter_iff present none text

/-! ### What the loop finds -/

/-- A character cannot be cut: at an offset inside of one there is no split. -/
theorem splitAt?_inside (before after : Text) {c : Char} {index : Nat} (positive : 0 < index)
    (inside : index < c.utf8Size) :
    (before ++ c :: after).splitAt? (before.width + index) = none := by
  cases cut : (before ++ c :: after).splitAt? (before.width + index) with
  | none => rfl
  | some pieces =>
    obtain ⟨left, right⟩ := pieces
    obtain ⟨whole, wide⟩ := (splitAt?_eq_some_iff _ _ _ _).mp cut
    obtain ⟨gap, rfl, split⟩ := exists_gap_of_width_le whole (by omega)
    rw [width_append] at wide
    cases gap with
    | nil =>
      rw [width_nil] at wide
      omega
    | cons d gap =>
      obtain ⟨rfl, -⟩ : c = d ∧ after = gap ++ right := by simpa using split
      rw [width_cons] at wide
      omega

/-- From inside a character the next place for a cut is its end. From the end itself it is that
place. -/
theorem boundaryFrom?_eq (before after : Text) (c : Char) {index : Nat} (positive : 0 < index)
    (inside : index ≤ c.utf8Size) :
    (before ++ c :: after).boundaryFrom? (before.width + index) = some (before ++ [c]).width := by
  obtain ⟨left, total⟩ := Nat.exists_eq_add_of_le inside
  induction left generalizing index with
  | zero =>
    have reached : before.width + index = (before ++ [c]).width := by simp [total]
    have cut := splitAt?_width (before ++ [c]) after
    rw [List.append_assoc, List.singleton_append] at cut
    rw [reached, boundaryFrom?, cut]
    rfl
  | succ left ih =>
    have within : index < c.utf8Size := by omega
    rw [boundaryFrom?, splitAt?_inside before after positive within, if_neg (by simp),
      if_pos (add_lt_width before after within)]
    exact @ih (index + 1) (by omega) (by omega) (by omega)

/-- A character of more than one byte is no identifier character, as all of those are ASCII. -/
theorem isIdentifierChar_of_wide {c : Char} (wide : 1 < c.utf8Size) :
    isIdentifierChar c = false := by
  have high : 127 < c.val.toNat := (one_lt_utf8Size_iff c).mp wide
  cases identifier : isIdentifierChar c with
  | false => rfl
  | true =>
    have alpha : c.isAlpha = (decide (c.val ≥ 'A'.val ∧ c.val ≤ 'Z'.val) ||
        c.val ≥ 'a'.val && c.val ≤ 'z'.val) := rfl
    simp only [isIdentifierChar, Char.isAlphanum, alpha, Char.isDigit, Bool.or_eq_true,
      Bool.and_eq_true, decide_eq_true_eq, beq_iff_eq] at identifier
    have above {d : Char} (ascii : d.val.toNat ≤ 127) : ¬c.val ≤ d.val := by
      intro low
      have low' := UInt32.le_iff_toNat_le.mp low
      omega
    rcases identifier with (((⟨-, low⟩ | ⟨-, low⟩) | ⟨-, low⟩) | rfl) | rfl
    · exact absurd low (above (by decide))
    · exact absurd low (above (by decide))
    · exact absurd low (above (by decide))
    · exact absurd high (by decide)
    · exact absurd high (by decide)

/-- The byte in front of an offset shows what the character in front of it shows. -/
theorem mayStart?_width (front rest : Text) :
    (front ++ rest).mayStart? front.width = some (delimits front.getLast?) := by
  rcases List.eq_nil_or_concat front with rfl | ⟨front, c, rfl⟩
  · rfl
  · have positive : 0 < c.utf8Size := c.utf8Size_pos
    obtain ⟨byte, present, of⟩ :=
      exists_byteAt? front rest c (show c.utf8Size - 1 < c.utf8Size by omega)
    have last : Text.width (front ++ [c]) - 1 = Text.width front + (c.utf8Size - 1) := by
      simp only [width_append, width_cons, width_nil]
      omega
    rw [mayStart?, List.concat_eq_append, last, List.append_assoc, List.singleton_append, present,
      if_neg (by simp only [width_append, width_cons]; omega)]
    simp [delimits, of.agree isIdentifierChar fun _ => isIdentifierChar_of_wide]

/-- The byte at an offset shows what the character there shows. -/
theorem mayStop?_width (front rest : Text) :
    (front ++ rest).mayStop? front.width = some (delimits rest.head?) := by
  cases rest with
  | nil => simp [mayStop?, delimits]
  | cons c rest =>
    have positive : 0 < c.utf8Size := c.utf8Size_pos
    obtain ⟨byte, present, of⟩ := exists_byteAt? front rest c positive
    rw [Nat.add_zero] at present
    have inside : front.width < (front ++ c :: rest).width := add_lt_width front rest positive
    rw [mayStop?, present, if_neg (Nat.not_le_of_lt inside)]
    simp [delimits, of.agree isIdentifierChar fun _ => isIdentifierChar_of_wide]

/-- Without an occurrence there is no delimited one. -/
theorem containsWordAfter_of_offsetOf?_none {text : Text} (absent : text.offsetOf? word = none)
    (previous : Option Char) : containsWordAfter word previous text = false := by
  fun_induction offsetOf? text word generalizing previous with
  | case1 => simp at absent
  | case2 starts => simp [containsWordAfter, starts]
  | case3 c rest starts ih =>
    have absent' : offsetOf? rest word = none := by simpa using absent
    simp [containsWordAfter, starts, ih absent']

/-- What stands in front of the first occurrence has no say, so that the search can go on from
there. -/
theorem containsWordAfter_of_offsetOf?_some {text : Text} {ahead : Nat}
    (first : text.offsetOf? word = some ahead) :
    ∃ skipped tail, text = skipped ++ (word ++ tail) ∧ Text.width skipped = ahead ∧
      ∀ front : Text, containsWordAfter word front.getLast? text =
        containsWordAfter word (front ++ skipped).getLast? (word ++ tail) := by
  fun_induction offsetOf? text word generalizing ahead with
  | case1 text starts =>
    obtain rfl : 0 = ahead := Option.some.inj first
    obtain ⟨tail, rfl⟩ := List.isPrefixOf_iff_prefix.mp starts
    exact ⟨[], tail, rfl, rfl, fun front => by rw [List.append_nil]⟩
  | case2 => simp at first
  | case3 c rest starts ih =>
    obtain ⟨ahead', first', rfl⟩ := Option.map_eq_some_iff.mp first
    obtain ⟨skipped, tail, rfl, wide, same⟩ := ih first'
    refine ⟨c :: skipped, tail, rfl, by rw [width_cons, wide], fun front => ?_⟩
    have passed := same (front ++ [c])
    rw [List.append_assoc, List.singleton_append] at passed
    rw [← passed, containsWordAfter]
    simp [starts]

/-- An occurrence at the start counts if it is delimited, and otherwise the search goes on. -/
theorem containsWordAfter_of_occurs (c : Char) (others tail : Text) (previous : Option Char) :
    containsWordAfter (c :: others) previous (c :: (others ++ tail)) =
      (delimits previous && delimits tail.head? ||
        containsWordAfter (c :: others) (some c) (others ++ tail)) := by
  have occurs : Text.startsWith (c :: (others ++ tail)) (c :: others) = true :=
    List.isPrefixOf_iff_prefix.mpr ⟨tail, rfl⟩
  rw [containsWordAfter, occurs]
  simp

/-- One turn of the loop: an occurrence that is delimited ends the search, and behind the
first character of another one the search is taken up again. -/
theorem wordFrom?_of_occurs (before skipped others tail : Text) (c : Char)
    (first : offsetOf? (skipped ++ c :: (others ++ tail)) (c :: others) = some skipped.width) :
    let text := before ++ skipped ++ c :: (others ++ tail)
    text.wordFrom? (c :: others) before.width =
      if delimits (before ++ skipped).getLast? && delimits tail.head? then some true
      else text.wordFrom? (c :: others) (before ++ skipped ++ [c]).width := by
  have cut := from?_width before (skipped ++ c :: (others ++ tail))
  have starts := mayStart?_width (before ++ skipped) (c :: (others ++ tail))
  have stops := mayStop?_width (before ++ skipped ++ c :: others) tail
  have next := boundaryFrom?_eq (before ++ skipped) (others ++ tail) c Nat.one_pos c.utf8Size_pos
  have bounds : before.width < (before ++ skipped ++ [c]).width ∧
      (before ++ skipped ++ [c]).width ≤ (before ++ skipped ++ c :: (others ++ tail)).width := by
    have positive : 0 < c.utf8Size := c.utf8Size_pos
    simp only [width_append, width_cons, width_nil]
    omega
  rw [← List.append_assoc] at cut
  rw [List.append_assoc _ (c :: others), List.cons_append, width_append _ (c :: others)] at stops
  rw [width_append before skipped] at starts stops next
  intro text
  rw [wordFrom?, cut]
  simp only [Option.bind_eq_bind, Option.bind_some, first, text, starts, stops, next,
    if_pos bounds, Option.pure_def]

/-- The words of a text can be found from its bytes.

The induction is on the length of the rest, since the search goes on one character
behind the start of the occurrence it has seen. -/
theorem wordFrom?_eq (before rest : Text) (present : word ≠ []) :
    (before ++ rest).wordFrom? word before.width =
      some (containsWordAfter word before.getLast? rest) := by
  generalize size : rest.length = length
  induction length using Nat.strongRecOn generalizing before rest with
  | ind length ih =>
    cases first : offsetOf? rest word with
    | none =>
      rw [wordFrom?, from?_width]
      simp [first, containsWordAfter_of_offsetOf?_none first]
    | some ahead =>
      obtain ⟨skipped, tail, rfl, rfl, same⟩ := containsWordAfter_of_offsetOf?_some first
      obtain ⟨c, others, rfl⟩ := List.exists_cons_of_ne_nil present
      have shorter : (others ++ tail).length < length := by
        simp only [List.length_append, List.length_cons] at size
        simp only [List.length_append]
        omega
      have turn := wordFrom?_of_occurs before skipped others tail c first
      have further := ih _ shorter (before ++ skipped ++ [c]) (others ++ tail) rfl
      rw [List.append_assoc _ [c], List.singleton_append, List.getLast?_concat] at further
      rw [same before, List.cons_append, ← List.append_assoc, turn, further,
        containsWordAfter_of_occurs]
      cases delimits (List.getLast? (before ++ skipped)) && delimits (List.head? tail) <;> rfl

/-! ### Parts of a text and their bytes -/

/-- Bytes of one character start with those of no other. -/
theorem utf8EncodeChar_append_inj {c d : Char} {bytes bytes' : Bytes}
    (same : String.utf8EncodeChar c ++ bytes = String.utf8EncodeChar d ++ bytes') :
    c = d ∧ bytes = bytes' := by
  have first (e : Char) (others : Bytes) :
      (String.utf8EncodeChar e ++ others).toByteArray.utf8DecodeChar? 0 = some e := by
    rw [List.toByteArray_append]
    exact ByteArray.utf8DecodeChar?_utf8EncodeChar_append
  have decoded := first c bytes
  rw [same, first d bytes', Option.some.injEq] at decoded
  subst decoded
  exact ⟨rfl, List.append_cancel_left same⟩

/-- A text starts with a part exactly if its bytes start with those of the part. -/
theorem encode_prefix_encode_iff (part text : Text) :
    part.encode <+: text.encode ↔ part <+: text := by
  constructor
  · intro spelled
    induction part generalizing text with
    | nil => exact List.nil_prefix
    | cons c part ih =>
      obtain ⟨bytes, split⟩ := spelled
      cases text with
      | nil => exact absurd (List.append_eq_nil_iff.mp split).1 (encode_ne_nil c part)
      | cons d text =>
        have split' : String.utf8EncodeChar c ++ (encode part ++ bytes) =
            String.utf8EncodeChar d ++ encode text := by
          rw [← List.append_assoc]
          exact split
        obtain ⟨rfl, further⟩ := utf8EncodeChar_append_inj split'
        exact List.cons_prefix_cons.mpr ⟨rfl, ih text ⟨bytes, further⟩⟩
  · rintro ⟨rest, rfl⟩
    rw [encode_append]
    exact List.prefix_append _ _

/-- Inside a character the bytes of no word show, since its first byte starts a character. -/
theorem not_encode_prefix_inside (before after : Text) {c : Char} (present : word ≠ [])
    {index : Nat} (positive : 0 < index) (inside : index < c.utf8Size) :
    ¬word.encode <+: (before ++ c :: after).encode.drop (before.width + index) := by
  rintro ⟨bytes, split⟩
  obtain ⟨d, others, rfl⟩ := List.exists_cons_of_ne_nil present
  have inside' : index < (String.utf8EncodeChar c).length := by
    rwa [String.length_utf8EncodeChar]
  have start : 0 < (String.utf8EncodeChar d).length := by
    rw [String.length_utf8EncodeChar]
    exact d.utf8Size_pos
  have same : (String.utf8EncodeChar d)[0] = (String.utf8EncodeChar c)[index] := by
    have shown : (encode (d :: others) ++ bytes)[0]? = some (String.utf8EncodeChar c)[index] := by
      rw [split, List.getElem?_drop, Nat.add_zero, getElem?_encode_char before after inside']
    have encoded : encode (d :: others) = String.utf8EncodeChar d ++ encode others := rfl
    rw [encoded, List.append_assoc, List.getElem?_append_left start,
      List.getElem?_eq_getElem start] at shown
    exact Option.some.inj shown
  have starts : (String.utf8EncodeChar d)[0].IsUTF8FirstByte :=
    UInt8.isUTF8FirstByte_getElem_utf8EncodeChar.mpr rfl
  rw [same, UInt8.isUTF8FirstByte_getElem_utf8EncodeChar] at starts
  omega

/-- A slice is a word exactly if the bytes from its start on are those of the word, wherever
in the bytes that is. -/
theorem slice?_eq_some_iff_encode (present : word ≠ []) (text : Text) (place : Nat) :
    text.slice? place (place + word.width) = some word ↔
      word.encode <+: text.encode.drop place := by
  constructor
  · intro cut
    obtain ⟨left, right, rfl, rfl, -⟩ := (slice?_eq_some_iff _ _ _ _).mp cut
    rw [List.append_assoc, encode_append, ← length_encode, List.drop_left, encode_append]
    exact List.prefix_append _ _
  · intro spelled
    have inside : place < text.width := by
      obtain ⟨c, others, rfl⟩ := List.exists_cons_of_ne_nil present
      rw [← length_encode, ← Nat.not_le]
      intro beyond
      rw [List.drop_eq_nil_of_le beyond, List.prefix_nil] at spelled
      exact encode_ne_nil c others spelled
    obtain ⟨left, c, right, index, rfl, within, rfl⟩ := exists_char_of_lt inside
    rcases Nat.eq_zero_or_pos index with rfl | positive
    · rw [Nat.add_zero, encode_append, ← length_encode, List.drop_left,
        encode_prefix_encode_iff] at spelled
      obtain ⟨rest, split⟩ := spelled
      refine (slice?_eq_some_iff _ _ _ _).mpr ⟨left, rest, ?_, rfl, rfl⟩
      rw [List.append_assoc, split]
    · exact absurd spelled (not_encode_prefix_inside left right present positive within)

/-! ### Words by their places -/

/-- A front keeps words apart exactly if its last byte is no identifier byte. -/
theorem delimits_getLast?_iff (left right : Text) :
    delimits left.getLast? = true ↔
      (0 < left.width → ∀ byte ∈ (left ++ right).byteAt? (left.width - 1),
        isIdentifierChar byte = false) := by
  have starts := mayStart?_width left right
  rw [mayStart?] at starts
  split at starts
  · rename_i first
    rw [← Option.some.inj starts]
    simp [first]
  · rename_i later
    obtain ⟨byte, present, shown⟩ := Option.map_eq_some_iff.mp starts
    have positive : 0 < left.width := Nat.pos_of_ne_zero later
    rw [← shown, present]
    simp [positive]

/-- A rest keeps words apart exactly if its first byte, if there is one, is no identifier byte. -/
theorem delimits_head?_iff (left right : Text) :
    delimits right.head? = true ↔
      ∀ byte ∈ (left ++ right).byteAt? left.width, isIdentifierChar byte = false := by
  have stops := mayStop?_width left right
  rw [mayStop?] at stops
  split at stops
  · rename_i last
    have absent : (left ++ right).byteAt? left.width = none := by
      rw [← Option.not_isSome_iff_eq_none, byteAt?_isSome_iff]
      exact Nat.not_lt_of_le last
    rw [← Option.some.inj stops, absent]
    simp
  · obtain ⟨byte, present, shown⟩ := Option.map_eq_some_iff.mp stops
    rw [← shown, present]
    simp

/-- A word stands by itself at the end of a front if it follows the front and no identifier
character is beside it. -/
theorem aloneAt_iff (text : Text) (place : Nat) :
    text.AloneAt word place ↔ ∃ left right, text = left ++ word ++ right ∧ left.width = place ∧
      delimits left.getLast? = true ∧ delimits right.head? = true := by
  have ahead (left right : Text) := delimits_getLast?_iff left (word ++ right)
  have behind (left right : Text) := delimits_head?_iff (left ++ word) right
  simp only [← List.append_assoc, width_append, Option.mem_def, ← Option.any_eq_false]
    at ahead behind
  constructor
  · rintro ⟨cut, before, after⟩
    obtain ⟨left, right, rfl, rfl, -⟩ := (slice?_eq_some_iff _ _ _ _).mp cut
    exact ⟨left, right, rfl, rfl, (ahead left right).mpr before, (behind left right).mpr after⟩
  · rintro ⟨left, right, rfl, rfl, before, after⟩
    refine ⟨?_, (ahead left right).mp before, (behind left right).mp after⟩
    exact (slice?_eq_some_iff _ _ _ _).mpr ⟨left, right, rfl, rfl, rfl⟩

/-- From every offset at which a text can be cut the loop answers, and the answer tells
whether the word stands by itself there or further on. -/
theorem wordFrom?_answers (present : word ≠ []) {text rest : Text} {offset : Nat}
    (cut : text.from? offset = some rest) :
    ∃ answer, text.wordFrom? word offset = some answer ∧
      (answer = true ↔ ∃ place, offset ≤ place ∧ text.AloneAt word place) := by
  obtain ⟨before, rfl, rfl⟩ := (from?_eq_some_iff _ _ _).mp cut
  refine ⟨_, wordFrom?_eq before rest present, ?_⟩
  simp only [containsWordAfter_iff present, aloneAt_iff]
  constructor
  · rintro ⟨left, right, rfl, starts, stops⟩
    refine ⟨(before ++ left).width, by simp, before ++ left, right, by simp, rfl, ?_, stops⟩
    rwa [List.getLast?_append]
  · rintro ⟨_, behind, front, right, whole, rfl, starts, stops⟩
    rw [List.append_assoc] at whole
    obtain ⟨left, rfl, rfl⟩ := exists_gap_of_width_le whole behind
    rw [List.getLast?_append] at starts
    exact ⟨left, right, by simp, starts, stops⟩

/-- For every text and every word that is not empty the loop over the bytes gives the answer
that is found by character. It is yes exactly if the word stands by itself at some offset,
whatever was turned down in front of it, and the bytes of the word show nowhere but where
a slice is the word. -/
theorem whole_words_by_place (present : word ≠ []) (text : Text) :
    text.wordFrom? word 0 = some (text.containsWord word) ∧
      (text.containsWord word = true ↔ ∃ place, text.AloneAt word place) ∧
      ∀ place, text.slice? place (place + word.width) = some word ↔
        word.encode <+: text.encode.drop place := by
  have found : text.wordFrom? word 0 = some (text.containsWord word) := wordFrom?_eq [] text present
  obtain ⟨answer, answered, places⟩ := wordFrom?_answers present (from?_width [] text)
  obtain rfl : text.containsWord word = answer := Option.some.inj (found.symm.trans answered)
  exact ⟨found, by simpa using places, slice?_eq_some_iff_encode present text⟩

/-- The second occurrence overlaps the first one in a character of two bytes. The first is
turned down for the letter in front of it. -/
theorem whole_words_by_place_of_overlap :
    let text : Text := "xé-é-é".toList
    let word : Text := "é-é".toList
    text.slice? 1 6 = some word ∧ ¬text.AloneAt word 1 ∧ text.AloneAt word 4 ∧
      text.wordFrom? word 0 = some true := by
  have second : Text.AloneAt "xé-é-é".toList "é-é".toList 4 := by decide
  obtain ⟨loop, places, -⟩ :=
    @whole_words_by_place "é-é".toList (by decide) "xé-é-é".toList
  exact ⟨by decide, by decide, second, by rw [loop, places.mpr ⟨4, second⟩]⟩

end ScriptCheck.Text
