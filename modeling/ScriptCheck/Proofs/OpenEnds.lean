import Mathlib.Data.List.Nodup
import ScriptCheck.Proofs.Decision
import ScriptCheck.Proofs.Pairing
import ScriptCheck.Proofs.Placement

/-!
# What a text leaves open

The brackets of a text are looked at three times: once to pair them, once to find the
outermost ones left open, and once, in a console call, to count the open parentheses. All
three tell the same. An opener is left open when no closer goes with it, the stack that
remains at the end of the text holds these openers, and the count is their number.

The rules for delimiters left open look for every such delimiter and keep the one that the
balance of the text names. There is such a delimiter in the text, so each rule reports it
once.
-/

namespace ScriptCheck

namespace Bracket

variable {kind : Bracket} {code : List (Nat × Char)} {offset : Nat}

/-- What stays open is an opener that is in no pair. Pairs and what stays open together list every
opener once. -/
theorem mem_unclosedFrom_iff (ordered : code.Pairwise fun placed later => placed.1 < later.1) :
    offset ∈ kind.unclosedFrom [] code ↔
      (offset, kind.opener) ∈ code ∧ ∀ closed, (offset, closed) ∉ kind.pairs code := by
  have perm : ((kind.pairs code).map Prod.fst ++ kind.unclosedFrom [] code).Perm
      (kind.openers code) := by
    have parts := perm_pairsFrom_unclosedFrom kind [] code
    rwa [List.append_nil] at parts
  have distinct : (kind.openers code).Nodup := by
    apply List.pairwise_map.mpr
    exact (ordered.filter _).imp Nat.ne_of_lt
  have apart := (List.nodup_append.mp (perm.nodup_iff.mpr distinct)).2.2
  rw [← mem_openers, ← perm.mem_iff, List.mem_append]
  constructor
  · intro member
    refine ⟨.inr member, ?_⟩
    intro closed paired
    have first : offset ∈ (kind.pairs code).map Prod.fst := List.mem_map.mpr ⟨_, paired, rfl⟩
    exact apart offset first offset member rfl
  · rintro ⟨first | member, unpaired⟩
    · obtain ⟨⟨opened, closed⟩, paired, rfl⟩ := List.mem_map.mp first
      exact absurd paired (unpaired closed)
    · exact member

/-- What stays open is listed from right to left, since the stack has the latest opener on top. -/
theorem pairwise_unclosedFrom {stack : List Nat}
    (ordered : code.Pairwise fun placed later => placed.1 < later.1)
    (ordered' : stack.Pairwise (· > ·))
    (below : ∀ opened ∈ stack, ∀ placed ∈ code, opened < placed.1) :
    (kind.unclosedFrom stack code).Pairwise (· > ·) := by
  induction code generalizing stack with
  | nil => exact ordered'
  | cons placed code ih =>
    obtain ⟨offset, c⟩ := placed
    obtain ⟨first, ordered⟩ := List.pairwise_cons.mp ordered
    have below' : ∀ opened ∈ stack, ∀ placed ∈ code, opened < placed.1 :=
      fun opened member placed later => below opened member placed (.tail _ later)
    rw [unclosedFrom]
    split
    · apply ih ordered
      · apply List.pairwise_cons.mpr
        exact ⟨fun opened member => below opened member _ (.head _), ordered'⟩
      · rintro opened (_ | ⟨_, member⟩)
        · exact first
        · exact below' opened member
    · split
      · apply ih ordered ordered'.tail
        intro opened member
        exact below' opened (List.mem_of_mem_tail member)
      · exact ih ordered ordered' below'

end Bracket

/-- Counting open parentheses is knowing how high the stack of them is. The induction is on the
code. -/
theorem Delimiter.openParens_eq_length (stack : List Nat) (code : List (Nat × Char)) :
    openParens stack.length code = (Bracket.paren.unclosedFrom stack code).length := by
  induction code generalizing stack with
  | nil => simp [openParens, Bracket.unclosedFrom]
  | cons placed code ih =>
    obtain ⟨offset, c⟩ := placed
    have further := ih stack
    have deeper := ih (offset :: stack)
    have shallower := ih stack.tail
    rw [List.length_tail] at shallower
    by_cases opens : c = '('
    · simpa [openParens, Bracket.unclosedFrom, Bracket.opener, opens] using deeper
    · by_cases closes : c = ')'
      · simpa [openParens, Bracket.unclosedFrom, Bracket.opener, Bracket.closer, closes]
          using shallower
      · simpa [openParens, Bracket.unclosedFrom, Bracket.opener, Bracket.closer, opens, closes]
          using further

namespace Text

variable {text : Text} {kind : Bracket} {offset : Nat}

/-- Whether an opener in code has no closer that goes with it. -/
def leavesOpen (text : Text) (kind : Bracket) (offset : Nat) : Bool :=
  text.codeByte? offset == some kind.opener && (text.layout.matchingClose? offset).isNone

/-- Whether a literal without an end starts at an offset. -/
def breaksOffFrom (text : Text) (offset : Nat) : Bool :=
  text.regions.any fun region => region.kind = .unterminated && region.start == offset

/-- The first offset in a text of which something holds. -/
def firstOffset? (text : Text) (holds : Nat → Bool) : Option Nat :=
  (List.range text.width).find? holds

/-- The stack at the end of a text holds the openers without a closer, the first one at the
bottom. -/
theorem reverse_unclosedFrom (kind : Bracket) :
    (kind.unclosedFrom [] text.codeChars).reverse =
      (List.range text.width).filter (text.leavesOpen kind) := by
  apply eq_filter_range
  · rw [List.pairwise_reverse]
    exact Bracket.pairwise_unclosedFrom text.pairwise_codeChars .nil (by simp)
  · intro offset
    rw [List.mem_reverse, Bracket.mem_unclosedFrom_iff text.pairwise_codeChars,
      mem_codeChars_iff kind.utf8Size_opener]
    simp only [leavesOpen, Bool.and_eq_true, beq_iff_eq, Option.isNone_iff_eq_none]
    constructor
    · rintro ⟨opens, unpaired⟩
      refine ⟨lt_width_of_codeByte? opens, opens, ?_⟩
      cases found : text.layout.matchingClose? offset with
      | none => rfl
      | some closed =>
        obtain ⟨other, encloses⟩ := matchingClose?_eq_some_iff.mp found
        obtain rfl : other = kind := Bracket.opener_injective
          (Option.some.inj (encloses.opens.symm.trans opens))
        exact absurd (mem_pairs_codeChars_iff.mpr encloses) (unpaired closed)
    · rintro ⟨-, opens, unmatched⟩
      refine ⟨opens, ?_⟩
      intro closed paired
      have found := matchingClose?_eq_some_iff.mpr ⟨kind, mem_pairs_codeChars_iff.mp paired⟩
      rw [unmatched] at found
      cases found

/-- The outermost opener left open is the first without a closer. -/
theorem unclosed?_codeChars (kind : Bracket) :
    kind.unclosed? text.codeChars = text.firstOffset? (text.leavesOpen kind) := by
  rw [Bracket.unclosed?, ← List.head?_reverse, reverse_unclosedFrom, List.head?_filter]
  rfl

/-- The parentheses left open are the openers without a closer. -/
theorem openParens_codeChars_eq_countP (text : Text) :
    Delimiter.openParens 0 text.codeChars =
      (List.range text.width).countP (text.leavesOpen .paren) := by
  have counted := Delimiter.openParens_eq_length [] text.codeChars
  rw [List.length_nil, ← List.length_reverse, reverse_unclosedFrom] at counted
  rw [counted, List.countP_eq_length_filter]

/-- A literal without an end starts with a quote. -/
theorem exists_quote {region : Region} (member : region ∈ text.regions)
    (unterminated : region.kind = .unterminated) :
    ∃ quote, isQuote quote = true ∧ text.byteAt? region.start = some quote := by
  have suits := text.tiling_regions.suits region member
  cases suits with
  | unterminated mark opens runs stops => exact ⟨_, mark, opens⟩
  | code | line | block | literal => cases unterminated

/-- The literal that a text is said to leave open is the first one without an end. -/
theorem unterminated?_eq_firstOffset? (text : Text) :
    text.unterminated? = text.firstOffset? text.breaksOffFrom := by
  have starts : (text.regions.filter fun region => region.kind = .unterminated).map Region.start =
      (List.range text.width).filter text.breaksOffFrom := by
    apply eq_filter_range
    · apply List.pairwise_map.mpr
      apply (text.pairwise_regions.imp_of_mem _).filter
      intro region later member _ behind
      exact Nat.lt_of_lt_of_le (text.tiling_regions.nonempty region member) behind
    · intro offset
      simp only [breaksOffFrom, List.mem_map, List.mem_filter, decide_eq_true_eq, List.any_eq_true,
        Bool.and_eq_true, beq_iff_eq, and_assoc]
      constructor
      · rintro ⟨region, member, unterminated, rfl⟩
        obtain ⟨quote, -, present⟩ := exists_quote member unterminated
        exact ⟨lt_width_of_byteAt? present, region, member, unterminated, rfl⟩
      · exact And.right
  rw [unterminated?, ← List.head?_filter, ← List.head?_map, starts, List.head?_filter]
  rfl

/-- A delimiter of a class stands at an offset. -/
def Holds (text : Text) (delimiter : Char → Bool) (offset : Nat) : Prop :=
  ∃ (before : Text) (c : Char) (after : Text),
    text = before ++ c :: after ∧ before.width = offset ∧ delimiter c = true

/-- A byte that is an ASCII delimiter stands there as a character. -/
theorem holds_of_byteAt? {delimiter : Char → Bool} {c : Char} (ascii : c.utf8Size = 1)
    (accepted : delimiter c = true) (present : text.byteAt? offset = some c) :
    text.Holds delimiter offset := by
  obtain ⟨before, after, whole, width⟩ := exists_append_of_byteAt? ascii present
  exact ⟨before, c, after, whole, width, accepted⟩

/-- What is said to be left open is an opener, and stands there. -/
theorem holds_of_unclosed? (kind : Bracket) {delimiter : Char → Bool}
    (accepted : delimiter kind.opener = true)
    (open' : kind.unclosed? text.codeChars = some offset) : text.Holds delimiter offset := by
  rw [unclosed?_codeChars] at open'
  have leaves := List.find?_some open'
  rw [leavesOpen, Bool.and_eq_true, beq_iff_eq, codeByte?] at leaves
  obtain ⟨opens, -⟩ := leaves
  split at opens
  · exact holds_of_byteAt? kind.utf8Size_opener accepted opens
  · cases opens

/-- A literal left open has its quote where it is said to start. -/
theorem holds_of_unterminated? (broken : text.unterminated? = some offset) :
    text.Holds isQuote offset := by
  rw [unterminated?_eq_firstOffset?] at broken
  have starts := List.find?_some broken
  rw [breaksOffFrom, List.any_eq_true] at starts
  obtain ⟨region, member, starts⟩ := starts
  simp only [Bool.and_eq_true, decide_eq_true_eq, beq_iff_eq] at starts
  obtain ⟨unterminated, rfl⟩ := starts
  obtain ⟨quote, mark, present⟩ := exists_quote member unterminated
  exact holds_of_byteAt? (utf8Size_of_isQuote mark) mark present

end Text

/-! ### The rules -/

namespace Pattern

/-- A search for one character of a class finds all of them, since matches of one character never
overlap. -/
theorem map_start_matchesFrom_char (accepts : Char → Bool) {cursor : Cursor} {ahead : Text}
    (sees : cursor.after = ahead) {last : Option Nat}
    (reached : (last.any fun stop => cursor.offset < stop) = false) :
    ((char accepts).matchesFrom last (cursor.onward ahead)).map Match.start =
      ((ahead.placedFrom cursor.offset).filter fun placed => accepts placed.2).map Prod.fst := by
  induction ahead generalizing cursor last with
  | nil =>
    have none : (char accepts).matchAt? cursor = none := by simp [matchAt?, ends, sees]
    rw [Cursor.onward, matchesFrom_of_none none]
    simp [matchesFrom, Text.placedFrom]
  | cons c rest ih =>
    have positive : 0 < c.utf8Size := c.utf8Size_pos
    rw [Cursor.onward, Text.placedFrom]
    cases accepted : accepts c with
    | false =>
      have none : (char accepts).matchAt? cursor = none := by
        simp [matchAt?, ends, sees, accepted]
      have reached' : (last.any fun stop => (cursor.pass c rest).offset < stop) = false := by
        cases last with
        | none => rfl
        | some stop =>
          simp only [Option.any_some, decide_eq_false_iff_not] at reached ⊢
          show ¬cursor.offset + c.utf8Size < stop
          omega
      rw [matchesFrom_of_none none, ih rfl reached']
      simp [accepted, Cursor.pass]
    | true =>
      have some' : (char accepts).matchAt? cursor = some ⟨⟨cursor, cursor.pass c rest⟩, []⟩ := by
        simp [matchAt?, ends, sees, accepted, groupCount]
      have proper : (cursor.pass c rest).offset ≠ cursor.offset := by
        show cursor.offset + c.utf8Size ≠ cursor.offset
        omega
      rw [matchesFrom_of_some some' reached fun empty => proper empty.1, List.map_cons,
        ih rfl (by simp [Match.stop])]
      simp [accepted, Cursor.pass, Match.start]

/-- A search for one character finds the offsets of all such. -/
theorem map_start_allMatches_char (accepts : Char → Bool) (text : Text) :
    ((char accepts).allMatches text).map Match.start =
      ((text.placedFrom 0).filter fun placed => accepts placed.2).map Prod.fst :=
  map_start_matchesFrom_char accepts rfl rfl

end Pattern

namespace Delimiter

/-- The rule for a delimiter left open reports the one that the balance of the text names, if
such a delimiter stands there, and nothing else. -/
theorem findings?_leftOpen (id message : String) {delimiter : Char → Bool}
    {offset : Balance → Option Nat} (known : Text → Bool) {text : Text}
    (stands : ∀ opened, offset text.balance = some opened → text.Holds delimiter opened) :
    ((leftOpen id message delimiter offset).findings? known text).map
      (fun findings => findings.map Finding.offset) = some (offset text.balance).toList := by
  have found : (leftOpen id message delimiter offset).findings? known text =
      some ((((Pattern.char delimiter).allMatches text).filter fun found =>
        offset text.balance == some found.start).map
          ((leftOpen id message delimiter offset).finding text)) := by
    apply @Rule.findings?_of_decides _ _ rfl known text fun _ => false
    intro found _
    exact Check.decides_pure _
  have starts := Pattern.map_start_allMatches_char delimiter text
  have increasing : (((text.placedFrom 0).filter fun placed => delimiter placed.2).map
      Prod.fst).Nodup := by
    apply List.pairwise_map.mpr
    exact ((text.pairwise_placedFrom 0).filter _).imp Nat.ne_of_lt
  have reported : ((leftOpen id message delimiter offset).findings? known text).map
      (fun findings => findings.map Finding.offset) =
      some ((((Pattern.char delimiter).allMatches text).map Match.start).filter fun start =>
        offset text.balance == some start) := by
    rw [found, List.filter_map]
    simp [Function.comp_def, Rule.finding]
  rw [reported, starts]
  cases named : offset text.balance with
  | none => simp
  | some opened =>
    obtain ⟨before, c, after, rfl, rfl, accepts⟩ := stands opened named
    have listed : before.width ∈ (((Text.placedFrom 0 (before ++ c :: after)).filter
        fun placed => delimiter placed.2).map Prod.fst) := by
      apply List.mem_map.mpr
      refine ⟨(0 + before.width, c), ?_, Nat.zero_add _⟩
      exact List.mem_filter.mpr ⟨Text.mem_placedFrom 0 before after c, accepts⟩
    have named' : (fun start => some before.width == some start) = (· == before.width) := by
      funext start
      rw [Bool.eq_iff_iff, beq_iff_eq, beq_iff_eq, Option.some.injEq, eq_comm]
    rw [named', List.filter_beq, List.count_eq_one_of_mem increasing listed]
    rfl

end Delimiter

/-- The brackets that the balance of a text names, the parentheses counted as open and the
findings of the rules for delimiters left open all follow from which openers have a closer
and which literals have an end. -/
theorem Text.balance_by_matching (text : Text) (known : Text → Bool) :
    (text.balance.brace = text.firstOffset? (text.leavesOpen .brace) ∧
      text.balance.paren = text.firstOffset? (text.leavesOpen .paren) ∧
      text.balance.string = text.firstOffset? text.breaksOffFrom) ∧
    Delimiter.openParens 0 text.codeChars =
      (List.range text.width).countP (text.leavesOpen .paren) ∧
    let reported (rule : Rule) : Option (List Nat) :=
      (rule.findings? known text).map fun findings => findings.map Finding.offset
    reported Delimiter.unclosedBrace = some text.balance.brace.toList ∧
      reported Delimiter.unclosedParen = some text.balance.paren.toList ∧
      reported Delimiter.unclosedString = some text.balance.string.toList := by
  refine ⟨⟨unclosed?_codeChars .brace, unclosed?_codeChars .paren,
    text.unterminated?_eq_firstOffset?⟩, text.openParens_codeChars_eq_countP, ?_, ?_, ?_⟩
  · apply Delimiter.findings?_leftOpen
    intro opened left
    exact holds_of_unclosed? Bracket.brace rfl left
  · apply Delimiter.findings?_leftOpen
    intro opened left
    exact holds_of_unclosed? Bracket.paren rfl left
  · apply Delimiter.findings?_leftOpen
    intro opened left
    exact holds_of_unterminated? left

end ScriptCheck
