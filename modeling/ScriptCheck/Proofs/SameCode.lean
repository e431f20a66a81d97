import ScriptCheck.Proofs.OpenEnds
import ScriptCheck.Proofs.Respelling
import ScriptCheck.Proofs.Streams

/-!
# What is hidden has no say

Patterns are searched for in the whole text, comments and literals included, and a search looks
at the characters on either side of a place whatever they belong to. Still, what comments and
literals hold makes no difference to the rules about spelling and about delimiters left open. Two
texts that are cut into the same regions, and that have the same bytes in their code, have the
same brackets in code and so the same balance. A word does not go over the edge of a region of
code, and no word character stands on the other side of such an edge. The words in code are
therefore the words of each region of code by itself, and these are the same in both texts.
-/

namespace ScriptCheck

namespace Text

/-- Two texts are cut into the same regions and have the same bytes where these are code. What
their comments and literals hold may differ. -/
structure SameCode (text other : Text) : Prop where
  regions : text.regions = other.regions
  bytes : ∀ offset, text.layout.inCode offset = true →
    text.encode[offset]? = other.encode[offset]?

/-! ### Layouts -/

section Bytes

variable {text other : Text}

/-- Two texts that agree on a stretch have the same bytes there. -/
theorem bytesFrom?_congr {offset count : Nat} (same : ∀ place, offset ≤ place →
      place < offset + count → text.byteAt? place = other.byteAt? place) :
    text.bytesFrom? offset count = other.bytesFrom? offset count := by
  induction count generalizing offset with
  | zero => rfl
  | succ count ih =>
    have first : text.byteAt? offset = other.byteAt? offset := same offset (by omega) (by omega)
    have others := @ih (offset + 1) fun place start stop =>
      same place (by omega) (by omega)
    rw [bytesFrom?, bytesFrom?, first, others]

/-- A walk over regions of code reads the same bytes in two texts that agree on these regions. -/
theorem codeBytes?_congr {regions : List Region}
    (same : ∀ region ∈ regions, region.kind = .code → ∀ place, region.start ≤ place →
      place < region.stop → text.byteAt? place = other.byteAt? place) :
    text.codeBytes? regions = other.codeBytes? regions := by
  induction regions with
  | nil => rfl
  | cons region rest ih =>
    obtain ⟨first, others⟩ := List.forall_mem_cons.mp same
    rw [codeBytes?, codeBytes?, ih others]
    by_cases code : region.kind = .code
    · have bytes : text.bytesFrom? region.start (region.stop - region.start) =
          other.bytesFrom? region.start (region.stop - region.start) :=
        bytesFrom?_congr fun place start stop => first code place start (by omega)
      rw [if_pos code, if_pos code, bytes]
    · rw [if_neg code, if_neg code]

end Bytes

/-- An offset that a region of code covers is in code. -/
theorem inCode_of_mem {text : Text} {region : Region} {offset : Nat}
    (member : region ∈ text.regions) (code : region.kind = .code) (start : region.start ≤ offset)
    (stop : offset < region.stop) : text.layout.inCode offset = true :=
  Layout.inCode_iff.mpr
    ⟨region, Layout.regionAt?_of_mem text.pairwise_regions member start stop, code⟩

namespace SameCode

variable {text other : Text} (same : SameCode text other)

include same

/-- Texts with the same code have the same bytes of code. -/
theorem byteAt?_eq {region : Region} {offset : Nat} (member : region ∈ text.regions)
    (code : region.kind = .code) (start : region.start ≤ offset) (stop : offset < region.stop) :
    text.byteAt? offset = other.byteAt? offset :=
  congrArg (Option.map Char.ofUInt8) (same.bytes offset (inCode_of_mem member code start stop))

/-- The layout of a text says nothing about its comments and literals but where they are. -/
theorem layout_eq : text.layout = other.layout := by
  have regions (text : Text) : text.regionsFrom? 0 0 = some text.regions :=
    text.laid_segments.regionsFrom?_eq []
  have code : text.codeBytes? text.regions = other.codeBytes? text.regions :=
    codeBytes?_congr fun region member code place => same.byteAt?_eq member code
  -- Read off the bytes, a layout depends on the regions and on the bytes of code alone.
  apply Option.some.inj
  rw [← byteLayout?_eq, ← byteLayout?_eq, byteLayout?, byteLayout?, regions, regions,
    ← same.regions]
  simp only [Option.bind_eq_bind, Option.bind_some, code]

/-- To have the same code is symmetric. -/
theorem symm : SameCode other text :=
  ⟨same.regions.symm, fun offset inCode => (same.bytes offset (same.layout_eq ▸ inCode)).symm⟩

end SameCode

/-! ### Regions of code -/

section Slices

variable {text : Text} {region : Region} {piece : Text}

/-- Every region is a text. -/
theorem exists_slice?_of_mem (member : region ∈ text.regions) :
    ∃ piece, text.slice? region.start region.stop = some piece := by
  obtain ⟨opens, closes⟩ := boundary_of_mem member
  exact exists_slice? opens closes (start_le_stop member)

/-- The bytes of a slice are bytes of the text. -/
theorem getElem?_encode_of_slice? {start stop : Nat} (cut : text.slice? start stop = some piece)
    {index : Nat} (inside : index < piece.width) :
    piece.encode[index]? = text.encode[start + index]? := by
  obtain ⟨above, below, rfl, rfl, -⟩ := (slice?_eq_some_iff _ _ _ _).mp cut
  rw [List.append_assoc, getElem?_encode_middle above piece below inside]

/-- A slice is as wide as the distance between its two ends. -/
theorem width_of_slice? {start stop : Nat} (cut : text.slice? start stop = some piece) :
    start + piece.width = stop := by
  obtain ⟨above, below, -, rfl, stops⟩ := (slice?_eq_some_iff _ _ _ _).mp cut
  exact stops

end Slices

/-- The same code means the same regions and the same bytes in them. -/
theorem sameCode_iff {text other : Text} :
    SameCode text other ↔ text.regions = other.regions ∧
      ∀ offset < text.width, text.layout.inCode offset = true →
        text.encode[offset]? = other.encode[offset]? :=
  ⟨fun same => ⟨same.regions, fun offset _ => same.bytes offset⟩, fun same =>
    ⟨same.1, fun offset inCode => same.2 offset (lt_width_of_inCode inCode) inCode⟩⟩

instance (text other : Text) : Decidable (SameCode text other) := decidable_of_iff' _ sameCode_iff

/-- Regions of code hold the same text in both: it is determined by its bytes, which are the
same. -/
theorem SameCode.slice?_eq {text other : Text} (same : SameCode text other) {region : Region}
    (member : region ∈ text.regions) (code : region.kind = .code) :
    other.slice? region.start region.stop = text.slice? region.start region.stop := by
  obtain ⟨piece, cut⟩ := exists_slice?_of_mem member
  obtain ⟨piece', cut'⟩ := exists_slice?_of_mem (same.regions ▸ member)
  have width := width_of_slice? cut
  have width' := width_of_slice? cut'
  have bytes : piece'.encode = piece.encode := by
    apply List.ext_getElem?
    intro index
    by_cases inside : index < piece.width
    · have inCode : text.layout.inCode (region.start + index) = true :=
        inCode_of_mem member code (by omega) (by omega)
      rw [getElem?_encode_of_slice? cut' (by omega), getElem?_encode_of_slice? cut inside,
        same.bytes _ inCode]
    · rw [List.getElem?_eq_none (by rw [length_encode]; omega),
        List.getElem?_eq_none (by rw [length_encode]; omega)]
  rw [cut, cut', encode_injective bytes]

/-! ### Words in code -/

/-- A word character is plain. -/
theorem isPlain_of_isWordChar {c : Char} (part : isWordChar c = true) : Mode.isPlain c = true := by
  have other (d : Char) (mark : isWordChar d = false) : c ≠ d := by
    rintro rfl
    rw [part] at mark
    cases mark
  refine Mode.isPlain_iff.mpr ⟨?_, other '/' rfl, other '*' rfl, other '\n' rfl, other '\\' rfl⟩
  simp [isQuote, other '\x22' rfl, other '\x27' rfl, other backquote rfl]

/-- What is not plain is no word character. -/
theorem isWordChar_of_isPlain_eq_false {c : Char} (marks : Mode.isPlain c = false) :
    isWordChar c = false := by
  rw [Bool.eq_false_iff] at marks ⊢
  exact mt isPlain_of_isWordChar marks

namespace Word

variable {text left word right front back piece : Text} {region : Region}

/-- A word that starts in a region of code is a word of what the region holds. -/
theorem exists_piece (isWord : text.Word left word right)
    (found : text.layout.regionAt? left.width = some region) (code : region.kind = .code)
    (cut : text.slice? region.start region.stop = some piece) :
    ∃ front back, piece.Word front word back ∧ region.start + front.width = left.width := by
  obtain ⟨-, starts, -⟩ := Layout.of_regionAt? found
  have stops : (left ++ word).width ≤ region.stop := width_le_stop_of_plain isWord.whole
    isWord.present (fun c listed => isPlain_of_isWordChar (isWord.letters c listed)) found code
  obtain ⟨above, below, whole, above', below'⟩ := (slice?_eq_some_iff _ _ _ _).mp cut
  obtain ⟨front, rfl, rest⟩ := exists_gap_of_width_le
    (show above ++ (piece ++ below) = left ++ (word ++ right) by
      rw [← List.append_assoc, ← whole, isWord.whole, List.append_assoc]) (by omega)
  rw [width_append, width_append] at stops
  obtain ⟨back, rfl, rest'⟩ := exists_gap_of_width_le
    (show (front ++ word) ++ right = piece ++ below by rw [rest, List.append_assoc])
    (by rw [width_append]; omega)
  refine ⟨front, back, ⟨rfl, isWord.present, isWord.letters, ?_, ?_⟩, ?_⟩
  · intro c last
    apply isWord.before
    rw [List.getLast?_append, last]
    rfl
  · intro c first
    apply isWord.after
    rw [rest', List.head?_append, first]
    rfl
  · rw [width_append, above']

/-- A word of what a region of code holds is a word of the text, because no word character stands
beside the region. -/
theorem of_piece (member : region ∈ text.regions) (code : region.kind = .code)
    (cut : text.slice? region.start region.stop = some piece)
    (isWord : piece.Word front word back) :
    ∃ left right, text.Word left word right ∧ left.width = region.start + front.width := by
  obtain ⟨above, below, whole, above', below'⟩ := (slice?_eq_some_iff _ _ _ _).mp cut
  obtain rfl := isWord.whole
  simp only [width_append] at below'
  have inside {left : Text} (start : region.start ≤ left.width) (stop : left.width < region.stop) :
      text.layout.regionAt? left.width = some region :=
    Layout.regionAt?_of_mem text.pairwise_regions member start stop
  have long := isWord.width_pos
  refine ⟨above ++ front, back ++ below, ⟨by simp [whole], isWord.present, isWord.letters, ?_, ?_⟩,
    by rw [width_append, above']⟩
  · intro c last
    rcases List.eq_nil_or_concat front with rfl | ⟨front, d, rfl⟩
    · -- The word starts with the region, and the character is outside of it.
      obtain ⟨d, rest, rfl⟩ := List.exists_cons_of_ne_nil isWord.present
      have whole' : text = above ++ d :: (rest ++ back ++ below) := by simp [whole]
      have letter := isPlain_of_isWordChar (isWord.letters d (.head _))
      have found := @inside above (by omega) (by omega)
      rw [List.append_nil] at last
      exact isWordChar_of_isPlain_eq_false
        (isPlain_before whole' letter found code above'.symm c last)
    · exact isWord.before c (by simpa using last)
  · intro d first
    cases back with
    | nil =>
      obtain ⟨start, c, rfl⟩ := (List.eq_nil_or_concat word).resolve_left isWord.present
      have whole' : text = above ++ front ++ start ++ c :: below := by simp [whole]
      have positive := c.utf8Size_pos
      simp only [List.concat_eq_append, width_append, width_cons, width_nil] at below'
      have found := @inside (above ++ front ++ start) (by simp only [width_append]; omega)
        (by simp only [width_append]; omega)
      have stops : region.stop = (above ++ front ++ start ++ [c]).width := by
        simp only [width_append, width_cons, width_nil]
        omega
      exact isWordChar_of_isPlain_eq_false (isPlain_behind whole' found code stops d first)
    | cons c back => exact isWord.after d first

end Word

/-- A word in code stands at the same place in every text with the same code. -/
theorem SameCode.exists_word {text other left word right : Text} (same : SameCode text other)
    (isWord : text.Word left word right) (inCode : text.layout.inCode left.width = true) :
    ∃ left' right', other.Word left' word right' ∧ left'.width = left.width := by
  obtain ⟨region, found, code⟩ := Layout.inCode_iff.mp inCode
  obtain ⟨member, -, -⟩ := Layout.of_regionAt? found
  obtain ⟨piece, cut⟩ := exists_slice?_of_mem member
  obtain ⟨front, back, isWord', width⟩ := isWord.exists_piece found code cut
  obtain ⟨left', right', isWord'', width'⟩ := isWord'.of_piece (same.regions ▸ member) code
    ((same.slice?_eq member code).trans cut)
  exact ⟨left', right', isWord'', width'.trans width⟩

end Text

/-! ### What rules report -/

/-- Where a finding starts and how long it is, in bytes. -/
def Finding.span (finding : Finding) : Nat × Nat := (finding.offset, finding.length)

/-- Where a rule finds something in a text, from left to right. -/
def Rule.spans? (rule : Rule) (known : Text → Bool) (text : Text) : Option (List (Nat × Nat)) :=
  (rule.findings? known text).map (List.map Finding.span)

/-- Spans that start further and further on are known from their members. -/
theorem spans_eq {spans spans' : List (Nat × Nat)}
    (increasing : spans.Pairwise fun span later => span.1 < later.1)
    (increasing' : spans'.Pairwise fun span later => span.1 < later.1)
    (members : ∀ span, span ∈ spans ↔ span ∈ spans') : spans = spans' := by
  have distinct {spans : List (Nat × Nat)}
      (increasing : spans.Pairwise fun span later => span.1 < later.1) : spans.Nodup :=
    increasing.imp fun less same => Nat.ne_of_lt less (congrArg Prod.fst same)
  apply List.Perm.eq_of_pairwise _ increasing increasing'
  · exact (List.perm_ext_iff_of_nodup (distinct increasing) (distinct increasing')).mpr members
  · intro first second _ _ less less'
    exact absurd less' (Nat.lt_asymm less)

namespace Spelling

open Pattern

/-- A misspelling of a name stands in code as a word of its own, with the given span. -/
def Entry.StandsAt (entry : Entry) (text : Text) (span : Nat × Nat) : Prop :=
  ∃ left word right, text.Word left word right ∧ entry.lists word = true ∧
    text.layout.inCode left.width = true ∧ span = (left.width, word.width)

variable {entry : Entry} {knows : Text → Bool} {text other : Text}

/-- A misspelling in code stands in every text with the same code. -/
theorem Entry.StandsAt.of_sameCode {span : Nat × Nat} (stands : entry.StandsAt text span)
    (same : text.SameCode other) : entry.StandsAt other span := by
  obtain ⟨left, word, right, isWord, misspelled, inCode, rfl⟩ := stands
  obtain ⟨left', right', isWord', width⟩ := same.exists_word isWord inCode
  rw [← width, same.layout_eq] at inCode
  exact ⟨left', word, right', isWord', misspelled, inCode, by rw [width]⟩

/-- The rule about a name reports the misspellings that are words in code, each with its span, and
nothing else. -/
theorem mem_spans_iff (known : entry ∈ vocabulary) {findings : List Finding}
    (searched : entry.rule.findings? knows text = some findings) {span : Nat × Nat} :
    span ∈ findings.map Finding.span ↔ entry.StandsAt text span := by
  rw [findings?_rule] at searched
  obtain rfl := Option.some.inj searched
  constructor
  · intro member
    obtain ⟨finding, reported, rfl⟩ := List.mem_map.mp member
    obtain ⟨found, kept, rfl⟩ := List.mem_map.mp reported
    obtain ⟨listed, inCode⟩ := List.mem_filter.mp kept
    obtain ⟨left, right, captures, occurs⟩ := occurs_of_mem_allMatches listed
    obtain ⟨isWord, misspelled⟩ := word_of_occurs known occurs
    rw [occurs.start_eq] at inCode
    exact ⟨left, found.body, right, isWord, misspelled, inCode,
      Prod.ext occurs.start_eq occurs.width_eq⟩
  · rintro ⟨left, word, right, isWord, misspelled, inCode, rfl⟩
    obtain ⟨found, listed, start, rfl⟩ := exists_mem_allMatches known isWord misspelled
    obtain ⟨_, _, _, occurs⟩ := occurs_of_mem_allMatches listed
    rw [← start] at inCode ⊢
    refine List.mem_map.mpr ⟨entry.rule.finding text found, ?_, Prod.ext rfl occurs.width_eq⟩
    exact List.mem_map_of_mem (List.mem_filter.mpr ⟨listed, inCode⟩)

/-- Misspellings are reported at the same places in texts with the same code, and whatever names are
known. -/
theorem exists_spans?_of_sameCode (known : entry ∈ vocabulary) (same : text.SameCode other)
    (knows knows' : Text → Bool) :
    ∃ spans, entry.rule.spans? knows text = some spans ∧
      entry.rule.spans? knows' other = some spans := by
  obtain ⟨findings, searched⟩ : ∃ findings, entry.rule.findings? knows text = some findings :=
    ⟨_, findings?_rule entry knows text⟩
  obtain ⟨findings', searched'⟩ : ∃ findings, entry.rule.findings? knows' other = some findings :=
    ⟨_, findings?_rule entry knows' other⟩
  have increasing {knows : Text → Bool} {text : Text} {findings : List Finding}
      (searched : entry.rule.findings? knows text = some findings) :
      (findings.map Finding.span).Pairwise fun span later => span.1 < later.1 :=
    List.pairwise_map.mpr (Rule.pairwise_findings? searched)
  have equal : findings'.map Finding.span = findings.map Finding.span := by
    apply spans_eq (increasing searched') (increasing searched)
    intro span
    rw [mem_spans_iff known searched, mem_spans_iff known searched']
    exact ⟨fun stands => stands.of_sameCode same.symm, fun stands => stands.of_sameCode same⟩
  refine ⟨findings.map Finding.span, ?_, ?_⟩
  · rw [Rule.spans?, searched, Option.map_some]
  · rw [Rule.spans?, searched', Option.map_some, equal]

end Spelling

namespace Delimiter

/-- The rule for a delimiter left open reports one byte, where the balance of the text says. -/
theorem spans?_leftOpen (id message : String) {delimiter : Char → Bool}
    {offset : Balance → Option Nat} (known : Text → Bool) {text : Text}
    (ascii : ∀ c, delimiter c = true → c.utf8Size = 1)
    (stands : ∀ opened, offset text.balance = some opened → text.Holds delimiter opened) :
    (leftOpen id message delimiter offset).spans? known text =
      some ((offset text.balance).toList.map fun opened => (opened, 1)) := by
  obtain ⟨findings, searched, offsets⟩ :=
    Option.map_eq_some_iff.mp (findings?_leftOpen id message known stands)
  have byte : ∀ finding ∈ findings, finding.span = (finding.offset, 1) := by
    intro finding member
    obtain ⟨found, left, right, captures, rfl, occurs, -⟩ :=
      Rule.exists_match_of_mem_findings? searched member
    obtain ⟨⟨c, accepted, body⟩, -⟩ := occurs.fits
    have width : found.whole.width = 1 := by
      rw [occurs.width_eq, body, Text.width_cons, ascii c accepted, Text.width_nil]
    exact Prod.ext rfl width
  rw [Rule.spans?, searched, Option.map_some, ← offsets, List.map_map, List.map_congr_left byte]
  rfl

/-- A delimiter left open is reported at the same place in texts with the same code. -/
theorem exists_spans?_of_sameCode (id message : String) {delimiter : Char → Bool}
    {offset : Balance → Option Nat} {text other : Text} (same : text.SameCode other)
    (ascii : ∀ c, delimiter c = true → c.utf8Size = 1)
    (stands : ∀ (text : Text) (opened : Nat), offset text.balance = some opened →
      text.Holds delimiter opened) (known known' : Text → Bool) :
    ∃ spans, (leftOpen id message delimiter offset).spans? known text = some spans ∧
      (leftOpen id message delimiter offset).spans? known' other = some spans := by
  have balance : text.balance = other.balance := congrArg Layout.balance same.layout_eq
  refine ⟨_, spans?_leftOpen id message known ascii (stands text), ?_⟩
  rw [balance]
  exact spans?_leftOpen id message known' ascii (stands other)

end Delimiter

/-- Whatever their comments and literals hold, texts with the same regions and the same bytes in
code are reported on alike by the rules about spelling and about delimiters left open: at the same
offsets, with the same lengths and in the same order. -/
theorem spans_eq_of_sameCode {text other : Text} (same : text.SameCode other)
    (known known' : Text → Bool) :
    ∀ rule ∈ [Spelling.functionKeyword, Spelling.documentName, Spelling.elementLookup,
        Delimiter.unclosedBrace, Delimiter.unclosedParen, Delimiter.unclosedString],
      ∃ spans, rule.spans? known text = some spans ∧ rule.spans? known' other = some spans := by
  have bracket (kind : Bracket) (c : Char) (opens : (c == kind.opener) = true) :
      c.utf8Size = 1 := by
    rw [beq_iff_eq.mp opens]
    exact kind.utf8Size_opener
  intro rule listed
  simp only [List.mem_cons, List.not_mem_nil, or_false] at listed
  rcases listed with rfl | rfl | rfl | rfl | rfl | rfl
  · exact Spelling.exists_spans?_of_sameCode (.head _) same known known'
  · exact Spelling.exists_spans?_of_sameCode (.tail _ (.head _)) same known known'
  · exact Spelling.exists_spans?_of_sameCode (.tail _ (.tail _ (.head _))) same known known'
  · exact Delimiter.exists_spans?_of_sameCode _ _ same (bracket .brace)
      (fun _ _ => Text.holds_of_unclosed? .brace rfl) known known'
  · exact Delimiter.exists_spans?_of_sameCode _ _ same (bracket .paren)
      (fun _ _ => Text.holds_of_unclosed? .paren rfl) known known'
  · exact Delimiter.exists_spans?_of_sameCode _ _ same (fun _ => Text.utf8Size_of_isQuote)
      (fun _ _ => Text.holds_of_unterminated?) known known'

/-- Brackets and a misspelling are hidden in one of the texts, and others in the other. -/
theorem spans_eq_of_hidden_brackets :
    let text : Text := "funtion/* funtion */é(\x7b 'docuemnt' \x22(".toList
    let other : Text := "funtion/*é(([[\x7b\x7b)*/é(\x7b '))))))))' \x22a".toList
    text.SameCode other ∧
      Spelling.functionKeyword.spans? (fun _ => true) other = some [(0, 7)] ∧
      Spelling.documentName.spans? (fun _ => true) other = some [] ∧
      Delimiter.unclosedBrace.spans? (fun _ => true) other = some [(23, 1)] ∧
      Delimiter.unclosedParen.spans? (fun _ => true) other = some [(22, 1)] ∧
      Delimiter.unclosedString.spans? (fun _ => true) other = some [(36, 1)] := by
  intro text other
  have same : text.SameCode other := by decide +kernel
  have alike := spans_eq_of_sameCode same (fun _ => false) fun _ => true
  have moved {rule : Rule} {spans : List (Nat × Nat)} (listed : ∃ found,
        rule.spans? (fun _ => false) text = some found ∧
        rule.spans? (fun _ => true) other = some found)
      (reported : rule.spans? (fun _ => false) text = some spans) :
      rule.spans? (fun _ => true) other = some spans := by
    obtain ⟨found, here, there⟩ := listed
    rw [there, ← here, reported]
  refine ⟨same, ?_, ?_, ?_, ?_, ?_⟩
  · exact moved (alike Spelling.functionKeyword (by simp)) (by decide +kernel)
  · exact moved (alike Spelling.documentName (by simp)) (by decide +kernel)
  · exact moved (alike Delimiter.unclosedBrace (by simp)) (by decide +kernel)
  · exact moved (alike Delimiter.unclosedParen (by simp)) (by decide +kernel)
  · exact moved (alike Delimiter.unclosedString (by simp)) (by decide +kernel)

end ScriptCheck
