import ScriptCheck.Proofs.BodyWords
import ScriptCheck.Proofs.ConsoleCall
import ScriptCheck.Proofs.Tiling

/-!
# Which brackets go together

Brackets are paired with a stack for each kind. Here it is said which ones go together
without a stack, by counting the brackets of one kind in the code between two offsets. An
opener goes with a closer behind it when, from the one to the other, the closers never
outnumber the openers and in the end are as many.

The link between the two is what the stack holds above an opener: so many closers must
still come before its own. Every other fact about pairs is read off the counts: no closer
has two openers, and pairs of one kind do not cross.
-/

namespace ScriptCheck

namespace Bracket

variable {kind : Bracket} {code : List (Nat × Char)} {opened closed offset depth : Nat} {c : Char}

/-- The two sides of a kind of bracket differ. -/
theorem opener_ne_closer (kind : Bracket) : kind.opener ≠ kind.closer := by
  cases kind <;> decide

/-! ### Openers -/

/-- An opener is put on the stack, and pairing goes on. -/
theorem pairsFrom_cons_opener (stack : List Nat) :
    kind.pairsFrom stack ((offset, kind.opener) :: code) =
      kind.pairsFrom (offset :: stack) code := by
  cases stack <;> simp [pairsFrom]

/-- A closer makes a pair with the opener on top of the stack. -/
theorem pairsFrom_cons_closer (top : Nat) (outer : List Nat) :
    kind.pairsFrom (top :: outer) ((offset, kind.closer) :: code) =
      (top, offset) :: kind.pairsFrom outer code := by
  simp [pairsFrom, kind.opener_ne_closer.symm]

/-- A character that is no bracket of the kind is passed over. -/
theorem pairsFrom_cons_of_ne (notOpener : c ≠ kind.opener) (notCloser : c ≠ kind.closer)
    (stack : List Nat) :
    kind.pairsFrom stack ((offset, c) :: code) = kind.pairsFrom stack code := by
  cases stack <;> simp [pairsFrom, notOpener, notCloser]

/-- The offsets of the openers of one kind. -/
def openers (kind : Bracket) (code : List (Nat × Char)) : List Nat :=
  (code.filter fun placed => placed.2 == kind.opener).map Prod.fst

/-- The openers of a kind are the offsets with its opener. -/
theorem mem_openers : offset ∈ kind.openers code ↔ (offset, kind.opener) ∈ code := by
  simp [openers]

/-- An opener comes first among the openers. -/
theorem openers_cons_opener : kind.openers ((offset, kind.opener) :: code) =
    offset :: kind.openers code := by
  simp [openers]

/-- A character other than the opener is not among the openers. -/
theorem openers_cons_of_ne (other : c ≠ kind.opener) :
    kind.openers ((offset, c) :: code) = kind.openers code := by
  simp [openers, other]

/-- Every opener ends up in a pair or stays open, and so does what was open before. -/
theorem perm_pairsFrom_unclosedFrom (kind : Bracket) (stack : List Nat)
    (code : List (Nat × Char)) :
    ((kind.pairsFrom stack code).map Prod.fst ++ kind.unclosedFrom stack code).Perm
      (kind.openers code ++ stack) := by
  fun_induction Bracket.pairsFrom kind stack code with
  | case1 stack => simp [unclosedFrom, openers]
  | case2 stack offset rest ih =>
    rw [unclosedFrom, if_pos rfl, openers_cons_opener, List.cons_append]
    exact ih.trans List.perm_middle
  | case3 offset rest notOpener ih =>
    rw [unclosedFrom, if_neg notOpener, if_pos rfl, openers_cons_of_ne notOpener]
    exact ih
  | case4 offset rest top outer notOpener ih =>
    rw [unclosedFrom, if_neg notOpener, if_pos rfl, openers_cons_of_ne notOpener]
    exact (ih.cons top).trans List.perm_middle.symm
  | case5 stack offset c rest notOpener notCloser ih =>
    rw [unclosedFrom, if_neg notOpener, if_neg notCloser, openers_cons_of_ne notOpener]
    exact ih

/-- The opener of a pair was open before or follows. -/
theorem opener_of_mem_pairsFrom {stack : List Nat}
    (member : (opened, closed) ∈ kind.pairsFrom stack code) :
    (opened, kind.opener) ∈ code ∨ opened ∈ stack := by
  have first : opened ∈ (kind.pairsFrom stack code).map Prod.fst :=
    List.mem_map_of_mem (f := Prod.fst) member
  have listed : opened ∈ kind.openers code ++ stack := by
    apply (perm_pairsFrom_unclosedFrom kind stack code).subset
    exact List.mem_append.mpr (.inl first)
  rw [List.mem_append, mem_openers] at listed
  exact listed

/-! ### Counting -/

/-- How often a character is placed in front of an offset. -/
def tally (c : Char) (stop : Nat) (code : List (Nat × Char)) : Nat :=
  code.countP fun placed => placed.1 < stop && placed.2 == c

/-- A character in front of the offset counts if it is the one. -/
theorem tally_cons {stop : Nat} (ahead : offset < stop) (d : Char) :
    tally c stop ((offset, d) :: code) = tally c stop code + if d = c then 1 else 0 := by
  simp [tally, List.countP_cons, ahead]

/-- Nothing is placed in front of the first place. -/
theorem tally_eq_zero {stop : Nat} (behind : ∀ placed ∈ code, stop ≤ placed.1) (c : Char) :
    tally c stop code = 0 := by
  apply List.countP_eq_zero.mpr
  intro placed member
  have later : stop ≤ placed.1 := behind placed member
  simp [later]

/-- With `depth` brackets open above an opener, the closer of the opener is the one at which
all of them and all opened since are closed, and no closer before it goes further. -/
structure ClosesAt (kind : Bracket) (depth : Nat) (code : List (Nat × Char)) (closed : Nat) :
    Prop where
  closes : (closed, kind.closer) ∈ code
  covered : ∀ stop ≤ closed, tally kind.closer stop code ≤ depth + tally kind.opener stop code
  even : tally kind.closer closed code = depth + tally kind.opener closed code

section

variable (first : ∀ placed ∈ code, offset < placed.1)

include first

/-- A bracket that is not the closer looked for changes the depth by one. Other characters leave
it. -/
theorem closesAt_cons {depth' : Nat}
    (shift : depth + (if c = kind.opener then 1 else 0) =
      depth' + if c = kind.closer then 1 else 0) :
    kind.ClosesAt depth ((offset, c) :: code) closed ↔ kind.ClosesAt depth' code closed := by
  have nothing {stop : Nat} (passed : stop ≤ offset) (d : Char) :
      tally d stop code = 0 ∧ tally d stop ((offset, c) :: code) = 0 := by
    have behind : ∀ placed ∈ (offset, c) :: code, stop ≤ placed.1 := by
      rintro placed (_ | ⟨_, member⟩)
      · exact passed
      · exact Nat.le_trans passed (Nat.le_of_lt (first placed member))
    exact ⟨tally_eq_zero (fun placed member => behind placed (.tail _ member)) d,
      tally_eq_zero behind d⟩
  have shifted {stop : Nat} (ahead : offset < stop) :
      tally kind.closer stop ((offset, c) :: code) + depth' + tally kind.opener stop code =
        tally kind.closer stop code + depth + tally kind.opener stop ((offset, c) :: code) := by
    rw [tally_cons ahead, tally_cons ahead]
    omega
  constructor
  · rintro ⟨closes, covered, even⟩
    have closes : (closed, kind.closer) ∈ code := by
      rcases List.mem_cons.mp closes with same | closes
      · -- The depth would have to be zero, and then no closer can be taken from it.
        obtain ⟨rfl, rfl⟩ := Prod.mk.inj same
        rw [(nothing (Nat.le_refl closed) _).2, (nothing (Nat.le_refl closed) _).2] at even
        rw [if_pos rfl, if_neg kind.opener_ne_closer.symm] at shift
        omega
      · exact closes
    refine ⟨closes, ?_, ?_⟩
    · intro stop inside
      rcases Nat.lt_or_ge offset stop with ahead | passed
      · have bound := covered stop inside
        have moved := shifted ahead
        omega
      · rw [(nothing passed _).1]
        exact Nat.zero_le _
    · have moved := shifted (show offset < closed from first _ closes)
      omega
  · rintro ⟨closes, covered, even⟩
    refine ⟨.tail _ closes, ?_, ?_⟩
    · intro stop inside
      rcases Nat.lt_or_ge offset stop with ahead | passed
      · have bound := covered stop inside
        have moved := shifted ahead
        omega
      · rw [(nothing passed _).2]
        exact Nat.zero_le _
    · have moved := shifted (show offset < closed from first _ closes)
      omega

/-- With nothing open above the opener, the next closer is its own, and no later one is. -/
theorem closesAt_zero_cons_closer :
    kind.ClosesAt 0 ((offset, kind.closer) :: code) closed ↔ closed = offset := by
  have later : ∀ placed ∈ code, offset + 1 ≤ placed.1 := first
  constructor
  · rintro ⟨closes, covered, -⟩
    rcases List.mem_cons.mp closes with same | closes
    · exact (Prod.mk.inj same).1
    · have outnumbered := covered (offset + 1) (first _ closes)
      rw [tally_cons (Nat.lt_succ_self _), tally_cons (Nat.lt_succ_self _), tally_eq_zero later,
        tally_eq_zero later, if_pos rfl, if_neg kind.opener_ne_closer.symm] at outnumbered
      omega
  · rintro rfl
    have nothing {stop : Nat} (passed : stop ≤ closed) (d : Char) :
        tally d stop ((closed, kind.closer) :: code) = 0 := by
      apply tally_eq_zero
      rintro placed (_ | ⟨_, member⟩)
      · exact passed
      · exact Nat.le_trans passed (Nat.le_of_lt (first placed member))
    refine ⟨.head _, ?_, ?_⟩
    · intro stop inside
      rw [nothing inside]
      exact Nat.zero_le _
    · rw [nothing (Nat.le_refl _), nothing (Nat.le_refl _)]

end

/-- An opener on the stack goes with the closer at which the brackets above it are closed. -/
theorem mem_pairsFrom_iff (ordered : code.Pairwise fun placed later => placed.1 < later.1)
    (fresh : ∀ placed ∈ code, placed.1 ≠ opened) {above outer : List Nat}
    (single : opened ∉ above) (single' : opened ∉ outer) :
    (opened, closed) ∈ kind.pairsFrom (above ++ opened :: outer) code ↔
      kind.ClosesAt above.length code closed := by
  induction code generalizing above with
  | nil =>
    simp only [pairsFrom, List.not_mem_nil, false_iff]
    rintro ⟨closes, -, -⟩
    simp at closes
  | cons placed code ih =>
    obtain ⟨offset, c⟩ := placed
    obtain ⟨first, ordered'⟩ := List.pairwise_cons.mp ordered
    obtain ⟨different, fresh'⟩ := List.forall_mem_cons.mp fresh
    by_cases opens : c = kind.opener
    · subst opens
      have single : opened ∉ offset :: above := by
        simp [single, Ne.symm different]
      rw [pairsFrom_cons_opener, ← List.cons_append, ih ordered' fresh' single]
      apply (closesAt_cons first _).symm
      simp [kind.opener_ne_closer]
    · by_cases closes : c = kind.closer
      · subst closes
        cases above with
        | nil =>
          have absent : (opened, closed) ∉ kind.pairsFrom outer code := by
            intro member
            rcases opener_of_mem_pairsFrom member with listed | listed
            · exact fresh' _ listed rfl
            · exact single' listed
          rw [List.nil_append, pairsFrom_cons_closer, List.length_nil,
            closesAt_zero_cons_closer first]
          simp [absent]
        | cons inner above =>
          obtain ⟨different', single⟩ := List.ne_and_not_mem_of_not_mem_cons single
          have skipped : (opened, closed) ≠ (inner, offset) := by
            simp [different']
          rw [List.cons_append, pairsFrom_cons_closer, List.mem_cons, or_iff_right skipped,
            ih ordered' fresh' single]
          apply (closesAt_cons first _).symm
          simp [opens]
      · rw [pairsFrom_cons_of_ne opens closes, ih ordered' fresh' single]
        apply (closesAt_cons first _).symm
        simp [opens, closes]

/-- A pair consists of an opener and of the closer at which nothing stays open since. -/
theorem mem_pairs_iff (ordered : code.Pairwise fun placed later => placed.1 < later.1) :
    (opened, closed) ∈ kind.pairs code ↔
      ∃ front rest, code = front ++ (opened, kind.opener) :: rest ∧
        kind.ClosesAt 0 rest closed := by
  -- Behind its opener, the pair is one made with the opener on top of the stack.
  have split {front rest : List (Nat × Char)}
      (whole : code = front ++ (opened, kind.opener) :: rest) :
      (opened, closed) ∈ kind.pairs code ↔ kind.ClosesAt 0 rest closed := by
    rw [whole, List.pairwise_append, List.pairwise_cons] at ordered
    obtain ⟨-, ⟨behind, ordered⟩, before⟩ := ordered
    have fresh : ∀ placed ∈ rest, placed.1 ≠ opened := fun placed member =>
      Nat.ne_of_gt (behind placed member)
    have absent : ∀ c, (opened, c) ∉ front := by
      intro c member
      exact Nat.lt_irrefl opened (before _ member (opened, kind.opener) (.head _))
    have notBefore : (opened, closed) ∉ kind.pairsFrom [] front := by
      intro member
      rcases opener_of_mem_pairsFrom member with listed | listed
      · exact absent _ listed
      · simp at listed
    have notOpen : opened ∉ kind.unclosedFrom [] front := by
      intro member
      have listed : opened ∈ kind.openers front ++ [] := by
        apply (perm_pairsFrom_unclosedFrom kind [] front).subset
        exact List.mem_append.mpr (.inr member)
      rw [List.append_nil, mem_openers] at listed
      exact absent _ listed
    have pairs := @mem_pairsFrom_iff kind rest opened closed ordered fresh []
      (kind.unclosedFrom [] front) List.not_mem_nil notOpen
    rw [Bracket.pairs, whole, pairsFrom_append, List.mem_append, or_iff_right notBefore,
      pairsFrom_cons_opener]
    exact pairs
  constructor
  · intro member
    rcases opener_of_mem_pairsFrom member with listed | listed
    · obtain ⟨front, rest, whole⟩ := List.append_of_mem listed
      exact ⟨front, rest, whole, (split whole).mp member⟩
    · simp at listed
  · rintro ⟨front, rest, whole, closes⟩
    exact (split whole).mpr closes

/-- An opening bracket takes one byte. -/
theorem utf8Size_opener (kind : Bracket) : kind.opener.utf8Size = 1 := by
  cases kind <;> rfl

/-- A kind of bracket is known by its opener. -/
theorem opener_injective {other : Bracket} (same : kind.opener = other.opener) : kind = other := by
  revert same
  cases kind <;> cases other <;> decide

/-- A kind of bracket is known by its closer. -/
theorem closer_injective {other : Bracket} (same : kind.closer = other.closer) : kind = other := by
  revert same
  cases kind <;> cases other <;> decide

end Bracket

/-! ### The code of a text, byte by byte -/

/-- What a scan shows is known from the mode in front of each character. The induction is on the
text. -/
theorem Mode.mem_scan_iff {mode : Mode} {offset position : Nat} {c : Char} {text : Text} :
    (position, c) ∈ mode.scan offset text ↔
      ∃ left right, text = left ++ c :: right ∧ position = offset + left.width ∧
        (mode.after left).showsCode c right.head? = true := by
  induction text generalizing mode offset with
  | nil => simp [scan]
  | cons d rest ih =>
    rw [scan, List.mem_append, ih]
    constructor
    · rintro (shown | ⟨left, right, rfl, rfl, shown⟩)
      · split at shown
        · rename_i shows
          obtain ⟨rfl, rfl⟩ := Prod.mk.inj (List.mem_singleton.mp shown)
          exact ⟨[], rest, rfl, rfl, shows⟩
        · simp at shown
      · exact ⟨d :: left, right, rfl, by rw [Text.width_cons, Nat.add_assoc], shown⟩
    · rintro ⟨left, right, whole, rfl, shown⟩
      cases left with
      | nil =>
        obtain ⟨rfl, rfl⟩ := List.cons.inj whole
        left
        rw [Mode.after_nil] at shown
        rw [if_pos shown]
        exact List.mem_singleton.mpr rfl
      | cons e left =>
        obtain ⟨rfl, rfl⟩ := List.cons.inj whole
        right
        exact ⟨left, right, rfl, by rw [Text.width_cons, Nat.add_assoc], shown⟩

namespace Text

variable {text : Text} {kind : Bracket} {opened closed offset : Nat} {c : Char}

/-- Whether a region of code covers an offset. -/
def isCodeAt (text : Text) (offset : Nat) : Bool :=
  text.regions.any fun region => region.kind = .code && region.covers offset

/-- The byte at an offset, if it is code. -/
def codeByte? (text : Text) (offset : Nat) : Option Char :=
  if text.isCodeAt offset then text.byteAt? offset else none

/-- How many bytes of code strictly between two offsets are the given one. -/
def codeCount (text : Text) (c : Char) (start stop : Nat) : Nat :=
  (List.range text.width).countP fun offset =>
    start < offset && offset < stop && text.codeByte? offset == some c

/-- An opener in code goes with a closer of its kind behind it, also in code: counting the
code between them, no stretch from the opener on has more closers than openers, and the
whole has as many. -/
structure Encloses (text : Text) (kind : Bracket) (opened closed : Nat) : Prop where
  ordered : opened < closed
  opens : text.codeByte? opened = some kind.opener
  closes : text.codeByte? closed = some kind.closer
  covered : ∀ stop ≤ closed,
    text.codeCount kind.closer opened stop ≤ text.codeCount kind.opener opened stop
  even : text.codeCount kind.closer opened closed = text.codeCount kind.opener opened closed

/-- Looking for any region of code that covers an offset comes to the same as looking the offset up,
as regions do not overlap. -/
theorem isCodeAt_eq_inCode (text : Text) (offset : Nat) :
    text.isCodeAt offset = text.layout.inCode offset := by
  rw [Bool.eq_iff_iff, isCodeAt, List.any_eq_true, Layout.inCode, Option.any_eq_true]
  constructor
  · rintro ⟨region, member, holds⟩
    simp only [Bool.and_eq_true, decide_eq_true_eq, Region.covers] at holds
    obtain ⟨isCode, start, stop⟩ := holds
    have found : text.layout.regionAt? offset = some region :=
      Layout.regionAt?_of_mem text.pairwise_regions member start stop
    exact ⟨region, found, by simp [isCode]⟩
  · rintro ⟨region, found, isCode⟩
    obtain ⟨member, start, stop⟩ := Layout.of_regionAt? found
    refine ⟨region, member, ?_⟩
    simp only [decide_eq_true_eq] at isCode
    simp [isCode, Region.covers, start, stop]

/-- Where there is a byte of code, the offset is within the text. -/
theorem lt_width_of_codeByte? (present : text.codeByte? offset = some c) : offset < text.width := by
  rw [codeByte?] at present
  split at present
  · exact lt_width_of_byteAt? present
  · exact absurd present (by simp)

/-- The ASCII characters of the code are its bytes, so that brackets can be told by bytes and
regions alone. -/
theorem mem_codeChars_iff (ascii : c.utf8Size = 1) :
    (offset, c) ∈ text.codeChars ↔ text.codeByte? offset = some c := by
  rw [codeChars_eq_scan, Mode.mem_scan_iff, codeByte?, isCodeAt_eq_inCode]
  constructor
  · rintro ⟨left, right, rfl, rfl, shown⟩
    rw [Nat.zero_add, inCode_layout, if_pos shown]
    exact (byteAt?_width_eq_some_iff left _ ascii).mpr rfl
  · intro found
    split at found
    · rename_i inside
      obtain ⟨left, right, rfl, rfl⟩ := exists_append_of_byteAt? ascii found
      rw [inCode_layout] at inside
      exact ⟨left, right, rfl, (Nat.zero_add _).symm, inside⟩
    · exact absurd found (by simp)

/-- A plain character is code when the mode in front of it is. -/
theorem codeByte?_width_eq_some_iff (left right : Text) (plain : Mode.isPlain c = true)
    (ascii : c.utf8Size = 1) :
    (left ++ c :: right).codeByte? left.width = some c ↔ (Mode.code.after left).inCode = true := by
  have present := (byteAt?_width_eq_some_iff left (c :: right) ascii).mpr rfl
  rw [codeByte?, isCodeAt_eq_inCode, inCode_layout, Mode.showsCode_of_isPlain plain, present]
  simp

/-- The characters of code come in the order of their offsets. -/
theorem pairwise_codeChars (text : Text) :
    text.codeChars.Pairwise fun placed later => placed.1 < later.1 :=
  (text.pairwise_placedFrom 0).sublist text.codeChars_sublist

/-- An increasing list of offsets is known from its members. -/
theorem eq_filter_range {holds : Nat → Bool} {offsets : List Nat}
    (increasing : offsets.Pairwise (· < ·))
    (members : ∀ offset, offset ∈ offsets ↔ offset < text.width ∧ holds offset = true) :
    offsets = (List.range text.width).filter holds := by
  have increasing' : ((List.range text.width).filter holds).Pairwise (· < ·) :=
    List.pairwise_lt_range.filter _
  apply List.Perm.eq_of_pairwise _ increasing increasing'
  · apply (List.perm_ext_iff_of_nodup _ _).mpr
    · intro offset
      rw [members, List.mem_filter, List.mem_range]
    · exact increasing.imp Nat.ne_of_lt
    · exact increasing'.imp Nat.ne_of_lt
  · intro first second _ _ less less'
    exact absurd less' (Nat.lt_asymm less)

/-- The offsets of a byte in the code, from left to right. -/
theorem map_fst_filter_codeChars (ascii : c.utf8Size = 1) :
    (text.codeChars.filter fun placed => placed.2 == c).map Prod.fst =
      (List.range text.width).filter fun offset => text.codeByte? offset == some c := by
  apply eq_filter_range
  · exact List.pairwise_map.mpr (text.pairwise_codeChars.filter _)
  · intro offset
    simp only [beq_iff_eq, List.mem_map, List.mem_filter, Prod.exists, exists_and_right,
      exists_eq_right]
    rw [mem_codeChars_iff ascii]
    exact ⟨fun found => ⟨lt_width_of_codeByte? found, found⟩, And.right⟩

/-- Bytes of code are counted as its characters. -/
theorem codeCount_eq (ascii : c.utf8Size = 1) (start stop : Nat) :
    text.codeCount c start stop =
      text.codeChars.countP fun placed => start < placed.1 && placed.1 < stop && placed.2 == c := by
  have bytes : text.codeCount c start stop = ((List.range text.width).filter fun offset =>
      text.codeByte? offset == some c).countP fun offset => start < offset && offset < stop := by
    rw [List.countP_filter]
    rfl
  rw [bytes, ← map_fst_filter_codeChars ascii, List.countP_map, List.countP_filter]
  rfl

/-- Behind an opener the code is counted by what follows the opener in it, as what is in front has
smaller offsets. -/
theorem codeCount_eq_tally (ascii : c.utf8Size = 1) {front rest : List (Nat × Char)} {d : Char}
    (whole : text.codeChars = front ++ (opened, d) :: rest) (stop : Nat) :
    text.codeCount c opened stop = Bracket.tally c stop rest := by
  have ordered := text.pairwise_codeChars
  rw [whole, List.pairwise_append, List.pairwise_cons] at ordered
  obtain ⟨-, ⟨behind, -⟩, before⟩ := ordered
  have none : front.countP (fun placed =>
      opened < placed.1 && placed.1 < stop && placed.2 == c) = 0 := by
    apply List.countP_eq_zero.mpr
    intro placed member
    have ahead : placed.1 < opened := before placed member (opened, d) (.head _)
    simp [Nat.le_of_lt ahead]
  rw [codeCount_eq ascii, whole, List.countP_append, none, List.countP_cons, Bracket.tally]
  simp only [Nat.lt_irrefl, decide_false, Bool.false_and, Bool.false_eq_true, ↓reduceIte,
    Nat.zero_add, Nat.add_zero]
  apply List.countP_congr
  intro placed member
  simp [behind placed member]

/-- The stack pairs the brackets that enclose balanced code, and no others. This says what the pairs
are without the stack. -/
theorem mem_pairs_codeChars_iff :
    (opened, closed) ∈ kind.pairs text.codeChars ↔ text.Encloses kind opened closed := by
  have asciiOpener := kind.utf8Size_opener
  have asciiCloser := kind.utf8Size_closer
  have ordered := text.pairwise_codeChars
  rw [Bracket.mem_pairs_iff ordered]
  constructor
  · rintro ⟨front, rest, whole, closes, covered, even⟩
    rw [whole, List.pairwise_append, List.pairwise_cons] at ordered
    have opens : (opened, kind.opener) ∈ text.codeChars := by simp [whole]
    have closes' : (closed, kind.closer) ∈ text.codeChars := by simp [whole, closes]
    refine ⟨ordered.2.1.1 _ closes, (mem_codeChars_iff asciiOpener).mp opens,
      (mem_codeChars_iff asciiCloser).mp closes', ?_, ?_⟩
    · intro stop inside
      have bound := covered stop inside
      rw [codeCount_eq_tally asciiCloser whole, codeCount_eq_tally asciiOpener whole]
      omega
    · rw [codeCount_eq_tally asciiCloser whole, codeCount_eq_tally asciiOpener whole, even,
        Nat.zero_add]
  · rintro ⟨behind, opens, closes, covered, even⟩
    rw [← mem_codeChars_iff asciiOpener] at opens
    rw [← mem_codeChars_iff asciiCloser] at closes
    obtain ⟨front, rest, whole⟩ := List.append_of_mem opens
    refine ⟨front, rest, whole, ?_, ?_, ?_⟩
    · rw [whole, List.pairwise_append] at ordered
      rw [whole, List.mem_append, List.mem_cons] at closes
      rcases closes with early | same | late
      · have ahead : closed < opened := ordered.2.2 _ early (opened, kind.opener) (.head _)
        omega
      · have equal : closed = opened := (Prod.mk.inj same).1
        omega
      · exact late
    · intro stop inside
      have bound := covered stop inside
      rw [codeCount_eq_tally asciiCloser whole, codeCount_eq_tally asciiOpener whole] at bound
      omega
    · rw [codeCount_eq_tally asciiCloser whole, codeCount_eq_tally asciiOpener whole] at even
      omega

/-! ### What the counts say -/

/-- Counting stops at an offset in between and goes on behind it, where the byte at that offset is
counted apart. -/
theorem codeCount_add {start middle stop : Nat} {d : Char} (ahead : start < middle)
    (behind : middle < stop) (present : text.codeByte? middle = some d) (c : Char) :
    text.codeCount c start stop =
      text.codeCount c start middle + (if d = c then 1 else 0) + text.codeCount c middle stop := by
  obtain ⟨front, back, whole⟩ :=
    List.append_of_mem (List.mem_range.mpr (lt_width_of_codeByte? present))
  have increasing : (List.range text.width).Pairwise (· < ·) := List.pairwise_lt_range
  rw [whole, List.pairwise_append, List.pairwise_cons] at increasing
  obtain ⟨-, ⟨later, -⟩, earlier⟩ := increasing
  have earlier : ∀ offset ∈ front, offset < middle := fun offset member =>
    earlier offset member middle (.head _)
  have same : front.countP (fun offset =>
        start < offset && offset < stop && text.codeByte? offset == some c) =
      front.countP fun offset =>
        start < offset && offset < middle && text.codeByte? offset == some c := by
    apply List.countP_congr
    intro offset member
    have := earlier offset member
    simp [this, Nat.lt_trans this behind]
  have same' : back.countP (fun offset =>
        start < offset && offset < stop && text.codeByte? offset == some c) =
      back.countP fun offset =>
        middle < offset && offset < stop && text.codeByte? offset == some c := by
    apply List.countP_congr
    intro offset member
    have := later offset member
    simp [this, Nat.lt_trans ahead this]
  have none : front.countP (fun offset =>
      middle < offset && offset < stop && text.codeByte? offset == some c) = 0 := by
    apply List.countP_eq_zero.mpr
    intro offset member
    simp [Nat.le_of_lt (earlier offset member)]
  have none' : back.countP (fun offset =>
      start < offset && offset < middle && text.codeByte? offset == some c) = 0 := by
    apply List.countP_eq_zero.mpr
    intro offset member
    have := later offset member
    simp [Nat.le_of_lt this]
  simp only [codeCount, whole, List.countP_append, List.countP_cons, same, same', none, none',
    present, ahead, behind, Nat.lt_irrefl, decide_true, decide_false, Bool.true_and, Bool.false_and,
    Bool.and_false, beq_iff_eq, Option.some.injEq, Bool.false_eq_true, ↓reduceIte]
  omega

/-- An opener has one closer: of two, the earlier one would go too far for the later one. -/
theorem Encloses.unique {closed' : Nat} (encloses : text.Encloses kind opened closed)
    (encloses' : text.Encloses kind opened closed') : closed = closed' := by
  -- The earlier closer would go too far for the later one.
  have notBefore {first second : Nat} (here : text.Encloses kind opened first)
      (there : text.Encloses kind opened second) : ¬first < second := by
    intro before
    have outnumbered := there.covered (first + 1) before
    have next := Nat.lt_succ_self first
    have nothing (c : Char) : text.codeCount c first (first + 1) = 0 := by
      apply List.countP_eq_zero.mpr
      intro offset _
      rw [Bool.and_eq_true, Bool.and_eq_true, decide_eq_true_iff, decide_eq_true_iff]
      omega
    rw [codeCount_add here.ordered next here.closes, codeCount_add here.ordered next here.closes,
      nothing, nothing, if_pos rfl, if_neg kind.opener_ne_closer.symm, here.even] at outnumbered
    omega
  have := notBefore encloses encloses'
  have := notBefore encloses' encloses
  omega

/-- Of two pairs of one kind, the one that opens inside the other closes inside it. -/
theorem Encloses.nested {opened' closed' : Nat} (encloses : text.Encloses kind opened closed)
    (encloses' : text.Encloses kind opened' closed') (behind : opened < opened')
    (inside : opened' < closed) : closed' < closed := by
  -- Up to the inner opener and from the outer one on, the closers are not in the majority.
  -- So behind the inner opener they must make good for it.
  apply Nat.lt_of_not_le
  intro beyond
  have front := encloses.covered opened' (Nat.le_of_lt inside)
  have back := encloses'.covered closed beyond
  have even := encloses.even
  rw [codeCount_add behind inside encloses'.opens, codeCount_add behind inside encloses'.opens,
    if_neg kind.opener_ne_closer, if_pos rfl] at even
  omega

/-- Brackets of two kinds do not share an opener. -/
theorem Encloses.kind_eq {other : Bracket} {closed' : Nat}
    (encloses : text.Encloses kind opened closed)
    (encloses' : text.Encloses other opened closed') : kind = other := by
  apply Bracket.opener_injective
  exact Option.some.inj (encloses.opens.symm.trans encloses'.opens)

/-- The closer of an opener is looked up among the pairs of all kinds, of which at most one
is the opener's. -/
theorem matchingClose?_eq_some_iff :
    text.layout.matchingClose? opened = some closed ↔
      ∃ kind : Bracket, text.Encloses kind opened closed := by
  have mem_pairs {closed : Nat} : (opened, closed) ∈ text.layout.pairs ↔
      ∃ kind : Bracket, text.Encloses kind opened closed := by
    simp only [layout, List.mem_append, mem_pairs_codeChars_iff]
    constructor
    · rintro ((encloses | encloses) | encloses)
      · exact ⟨_, encloses⟩
      · exact ⟨_, encloses⟩
      · exact ⟨_, encloses⟩
    · rintro ⟨kind, encloses⟩
      cases kind with
      | brace => exact .inl (.inl encloses)
      | paren => exact .inl (.inr encloses)
      | square => exact .inr encloses
  constructor
  · intro found
    obtain ⟨front, back, listed, -⟩ := List.lookup_eq_some_iff.mp found
    exact mem_pairs.mp (by simp [listed])
  · rintro ⟨kind, encloses⟩
    cases found : text.layout.matchingClose? opened with
    | none =>
      have absent := List.lookup_eq_none_iff.mp found _ (mem_pairs.mpr ⟨kind, encloses⟩)
      simp at absent
    | some closed' =>
      obtain ⟨front, back, listed, -⟩ := List.lookup_eq_some_iff.mp found
      obtain ⟨other, encloses'⟩ := mem_pairs.mp
        (show (opened, closed') ∈ text.layout.pairs by simp [listed])
      obtain rfl := encloses.kind_eq encloses'
      rw [encloses.unique encloses']

/-- Two brackets go together exactly when they enclose balanced code. So no two openers have
one closer, and of two pairs of one kind either one lies inside the other or they lie
apart. -/
theorem matching_by_counting (text : Text) :
    (∀ opened closed, text.layout.matchingClose? opened = some closed ↔
      ∃ kind : Bracket, text.Encloses kind opened closed) ∧
    (∀ opened opened' closed, text.layout.matchingClose? opened = some closed →
      text.layout.matchingClose? opened' = some closed → opened = opened') ∧
    ∀ (kind : Bracket) (opened opened' closed closed' : Nat),
      text.codeByte? opened = some kind.opener → text.codeByte? opened' = some kind.opener →
      text.layout.matchingClose? opened = some closed →
      text.layout.matchingClose? opened' = some closed' →
      opened < opened' → closed < opened' ∨ closed' < closed := by
  refine ⟨fun _ _ => matchingClose?_eq_some_iff, ?_, ?_⟩
  · intro opened opened' closed found found'
    obtain ⟨kind, encloses⟩ := matchingClose?_eq_some_iff.mp found
    obtain ⟨other, encloses'⟩ := matchingClose?_eq_some_iff.mp found'
    obtain rfl : kind = other := by
      apply Bracket.closer_injective
      exact Option.some.inj (encloses.closes.symm.trans encloses'.closes)
    rcases Nat.lt_trichotomy opened opened' with before | same | behind
    · exact absurd (encloses.nested encloses' before encloses'.ordered) (Nat.lt_irrefl _)
    · exact same
    · exact absurd (encloses'.nested encloses behind encloses.ordered) (Nat.lt_irrefl _)
  · intro kind opened opened' closed closed' opens opens' found found' before
    obtain ⟨first, encloses⟩ := matchingClose?_eq_some_iff.mp found
    obtain ⟨second, encloses'⟩ := matchingClose?_eq_some_iff.mp found'
    obtain rfl : first = kind := Bracket.opener_injective
      (Option.some.inj (encloses.opens.symm.trans opens))
    obtain rfl : second = first := Bracket.opener_injective
      (Option.some.inj (encloses'.opens.symm.trans opens'))
    rcases Nat.lt_trichotomy closed opened' with apart | same | inside
    · exact .inl apart
    · have opener : second.closer = second.opener := by
        apply Option.some.inj
        rw [← encloses.closes, same, encloses'.opens]
      exact absurd opener.symm second.opener_ne_closer
    · exact .inr (encloses.nested encloses' before inside)

/-- A closer in a literal counts for nothing, nor does a brace between two parentheses, and a
closer too many is passed over. -/
theorem matching_by_counting_of_nested_calls :
    let text : Text := ")f(\")\", \x7b g(b) é)".toList
    (text.layout.matchingClose? 2 = some 17 ∧ text.layout.matchingClose? 11 = some 13 ∧
      text.codeByte? 2 = some '(' ∧ text.codeByte? 11 = some '(') ∧
    (∃ kind : Bracket, text.Encloses kind 2 17) ∧ (17 < 11 ∨ 13 < 17) ∧
      ∀ opened, text.layout.matchingClose? opened = some 17 → opened = 2 := by
  intro text
  have outer : text.layout.matchingClose? 2 = some 17 := by decide +kernel
  have inner : text.layout.matchingClose? 11 = some 13 := by decide +kernel
  have opens : text.codeByte? 2 = some '(' := by decide +kernel
  have opens' : text.codeByte? 11 = some '(' := by decide +kernel
  obtain ⟨counting, injective, nested⟩ := matching_by_counting text
  refine ⟨⟨outer, inner, opens, opens'⟩, (counting 2 17).mp outer, ?_, ?_⟩
  · exact nested .paren 2 11 17 13 opens opens' outer inner (by decide)
  · intro opened found
    exact injective opened 2 17 found outer

end Text

end ScriptCheck
