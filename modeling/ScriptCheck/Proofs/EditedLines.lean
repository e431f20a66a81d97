import ScriptCheck.Proofs.Mending

/-!
# Mending line by line

Substitutions that replace text within lines by text without newlines act on each line
for itself. The edited text has as many lines as the original, and each of them is the
line of the original with the substitutions carried out that are on it, their offsets
counted from the start of the line.

The remedies of the built-in rules are of this kind: no match has a newline, and none is
put in. So a line number means the same line before and after mending.
-/

namespace ScriptCheck

namespace Text

/-- A text is one line, or a line in front of a newline and further lines. -/
@[elab_as_elim]
theorem lineInduction {motive : Text → Prop}
    (last : ∀ line, (∀ c ∈ line, c ≠ '\n') → motive line)
    (further : ∀ line rest, (∀ c ∈ line, c ≠ '\n') → motive rest → motive (line ++ '\n' :: rest))
    (text : Text) : motive text := by
  obtain ⟨below, split, oneLine, ends⟩ := Line.exists_below text
  cases below with
  | nil =>
    rw [List.append_nil] at split
    rw [split]
    exact last _ oneLine
  | cons c rest =>
    obtain rfl : c = '\n' := ends c rfl
    have shorter : rest.length < text.length := by
      rw [split, List.length_append, List.length_cons]
      omega
    rw [split]
    exact further _ rest oneLine (lineInduction last further rest)
termination_by text.length

/-- A text without newlines is one line, the text itself. -/
theorem splitOn_line {line : Text} (oneLine : ∀ c ∈ line, c ≠ '\n') :
    line.splitOn '\n' = [line] := by
  apply List.splitOn_eq_singleton
  intro listed
  exact oneLine '\n' listed rfl

/-- A line and the newline behind it are split off. -/
theorem splitOn_append_newline {line : Text} (oneLine : ∀ c ∈ line, c ≠ '\n') (rest : Text) :
    (line ++ '\n' :: rest).splitOn '\n' = line :: rest.splitOn '\n' := by
  apply List.splitOnP_append_cons_of_forall_mem
  · simpa using oneLine
  · rfl

/-- A line has no newlines. -/
theorem count_of_oneLine {line : Text} (oneLine : ∀ c ∈ line, c ≠ '\n') : line.count '\n' = 0 := by
  apply List.count_eq_zero.mpr
  intro listed
  exact oneLine '\n' listed rfl

/-- There is one line more than there are newlines. -/
theorem length_splitOn (text : Text) : (text.splitOn '\n').length = text.count '\n' + 1 := by
  induction text using lineInduction with
  | last line oneLine =>
    rw [splitOn_line oneLine, count_of_oneLine oneLine]
    rfl
  | further line rest oneLine ih =>
    rw [splitOn_append_newline oneLine, List.length_cons, ih, List.count_append,
      count_of_oneLine oneLine, List.count_cons_self, Nat.zero_add]

/-- A line of a text, between the lines above it, with the newline that ends them, and
what follows it, from its own newline on. -/
structure LineIn (text above line below : Text) : Prop where
  whole : text = above ++ line ++ below
  opened : ∀ c ∈ above.getLast?, c = '\n'
  oneLine : ∀ c ∈ line, c ≠ '\n'
  closed : ∀ c ∈ below.head?, c = '\n'

/-- A text that ends in a newline has at least one. -/
theorem one_le_count_of_getLast? {text : Text} (present : text ≠ [])
    (last : ∀ c ∈ text.getLast?, c = '\n') : 1 ≤ text.count '\n' := by
  have newline : text.getLast present = '\n' := last _ (List.getLast?_eq_some_getLast present)
  exact List.one_le_count_iff.mpr (newline ▸ List.getLast_mem present)

/-- A text that starts with a newline has at least one. -/
theorem one_le_count_of_head? {text : Text} (present : text ≠ [])
    (first : ∀ c ∈ text.head?, c = '\n') : 1 ≤ text.count '\n' := by
  have newline : text.head present = '\n' := first _ (List.head?_eq_some_head present)
  exact List.one_le_count_iff.mpr (newline ▸ List.head_mem present)

namespace LineIn

variable {text above line below left right : Text}

/-- A place between the ends of a line parts that line. -/
theorem exists_front_of_width (isLine : LineIn text above line below) (cut : text = left ++ right)
    (behind : above.width ≤ left.width) (inside : left.width ≤ above.width + line.width) :
    ∃ front back, left = above ++ front ∧ line = front ++ back := by
  have same : above ++ (line ++ below) = left ++ right := by
    rw [← List.append_assoc, ← isLine.whole, cut]
  obtain ⟨front, rfl, split⟩ := exists_gap_of_width_le same behind
  have inside' : front.width ≤ line.width := by
    rw [width_append] at inside
    omega
  obtain ⟨back, longer, -⟩ := exists_gap_of_width_le split.symm inside'
  exact ⟨front, back, rfl, longer⟩

/-- A place with as many newlines in front of it as the lines above have is on the line. -/
theorem exists_front_of_count (isLine : LineIn text above line below) (cut : text = left ++ right)
    (same : left.count '\n' = above.count '\n') :
    ∃ front back, left = above ++ front ∧ line = front ++ back := by
  have pieces : above ++ (line ++ below) = left ++ right := by
    rw [← List.append_assoc, ← isLine.whole, cut]
  -- Anywhere else a newline would lie between the place and the line.
  refine isLine.exists_front_of_width cut (Nat.le_of_not_lt ?_) (Nat.le_of_not_lt ?_)
  · intro ahead
    obtain ⟨gap, split, -⟩ := exists_gap_of_width_le pieces.symm (Nat.le_of_lt ahead)
    have present : gap ≠ [] := by
      rintro rfl
      simp [split] at ahead
    have newlines : 1 ≤ gap.count '\n' := by
      apply one_le_count_of_getLast? present
      intro c last
      apply isLine.opened
      rw [split, List.getLast?_append, last]
      rfl
    rw [split, List.count_append] at same
    omega
  · intro past
    rw [← width_append] at past
    obtain ⟨gap, split, rest⟩ :=
      exists_gap_of_width_le ((List.append_assoc ..).trans pieces) (Nat.le_of_lt past)
    have present : gap ≠ [] := by
      rintro rfl
      simp [split] at past
    have newlines : 1 ≤ gap.count '\n' := by
      apply one_le_count_of_head? present
      intro c first
      apply isLine.closed
      rw [rest, List.head?_append, first]
      rfl
    rw [split, List.count_append, List.count_append] at same
    omega

/-- The front of a line has no newline. -/
theorem oneLine_front (isLine : LineIn text above line below) {front back : Text}
    (split : line = front ++ back) : ∀ c ∈ front, c ≠ '\n' := by
  intro c listed
  apply isLine.oneLine
  rw [split]
  exact List.mem_append_left _ listed

/-- The text in front of a place on a line ends in the part of the line in front of it. -/
theorem lastLine_eq (isLine : LineIn text above line below) {front back : Text}
    (split : line = front ++ back) : lastLine (above ++ front) = front := by
  have oneLine : ∀ c ∈ front, c ≠ '\n' := isLine.oneLine_front split
  rcases List.eq_nil_or_concat above with rfl | ⟨upper, c, rfl⟩
  · exact lastLine_of_oneLine oneLine
  · obtain rfl : c = '\n' := isLine.opened c (by simp)
    simpa using lastLine_append_newline upper oneLine

/-- A line of a text is one of the text with a line in front. -/
theorem below_line (isLine : LineIn text above line below) (upper : Text) :
    LineIn (upper ++ '\n' :: text) (upper ++ '\n' :: above) line below := by
  refine ⟨by simp [isLine.whole], ?_, isLine.oneLine, isLine.closed⟩
  intro c last
  rw [List.getLast?_append, List.getLast?_cons] at last
  cases ends : above.getLast? with
  | none => simpa [ends, eq_comm] using last
  | some d =>
    obtain rfl : d = c := by simpa [ends] using last
    exact isLine.opened d ends

/-- The line of a place is known by its number. -/
theorem lineNumber_eq_iff (isLine : LineIn text above line below) (cut : text = left ++ right) :
    text.lineNumber left.width = above.count '\n' + 1 ↔
      above.width ≤ left.width ∧ left.width ≤ above.width + line.width := by
  rw [cut, lineNumber_width, Nat.add_right_cancel_iff]
  constructor
  · intro same
    obtain ⟨front, back, rfl, rfl⟩ := isLine.exists_front_of_count cut same
    simp only [width_append]
    omega
  · rintro ⟨behind, inside⟩
    obtain ⟨front, back, rfl, split⟩ := isLine.exists_front_of_width cut behind inside
    rw [List.count_append, count_of_oneLine (isLine.oneLine_front split), Nat.add_zero]

/-- The line of a place starts where the lines above it end. -/
theorem lineBounds_eq (isLine : LineIn text above line below) (cut : text = left ++ right)
    (behind : above.width ≤ left.width) (inside : left.width ≤ above.width + line.width) :
    (text.lineBounds left.width).1 = above.width := by
  obtain ⟨front, back, rfl, split⟩ := isLine.exists_front_of_width cut behind inside
  rw [cut, lineBounds_width, isLine.lastLine_eq split, width_append, Nat.add_sub_cancel]

end LineIn

end Text

namespace Repair

open Substitution

namespace Substitution

/-- The substitution as seen from its line: its offset counts from the start of the line. -/
def inLine (text : Text) (edit : Substitution) : Substitution :=
  { edit with offset := edit.offset - (text.lineBounds edit.offset).1 }

/-- The substitution replaces a piece of the text, and neither the piece nor what takes its
place has a newline. -/
def OneLine (text : Text) (edit : Substitution) : Prop :=
  ∃ left old right, text = left ++ old ++ right ∧ left.width = edit.offset ∧
    old.width = edit.length ∧ ∀ c ∈ old ++ edit.new, c ≠ '\n'

/-- No newline is replaced by a substitution within a line, because the piece it replaces has
none. -/
theorem OneLine.covers_newline {text front rest : Text} {edit : Substitution}
    (oneLine : edit.OneLine text) (newline : text = front ++ '\n' :: rest) :
    edit.covers front.width = false := by
  obtain ⟨left, old, right, whole, offset, length, line⟩ := oneLine
  rw [← Bool.not_eq_true]
  intro covered
  rw [covers_iff, ← offset, ← length] at covered
  have pieces : left ++ (old ++ right) = front ++ '\n' :: rest := by
    rw [← List.append_assoc, ← whole, newline]
  obtain ⟨gap, rfl, split⟩ := Text.exists_gap_of_width_le pieces covered.1
  have shorter : gap.width ≤ old.width := by
    rw [Text.width_append] at covered
    omega
  obtain ⟨covers, rfl, split'⟩ := Text.exists_gap_of_width_le split.symm shorter
  cases covers with
  | nil =>
    rw [Text.width_append, List.append_nil] at covered
    omega
  | cons c covers =>
    obtain ⟨rfl, -⟩ := List.cons.inj split'
    exact line '\n' (by simp) rfl

/-- What is replaced on a line starts on that line. -/
theorem OneLine.le_offset {text above line below : Text} {edit : Substitution}
    (oneLine : edit.OneLine text) (isLine : Text.LineIn text above line below) {place : Nat}
    (covered : edit.covers (above.width + place) = true) : above.width ≤ edit.offset := by
  rcases List.eq_nil_or_concat above with rfl | ⟨upper, c, rfl⟩
  · exact Nat.zero_le _
  · obtain rfl : c = '\n' := isLine.opened c (by simp)
    have newline : text = upper ++ '\n' :: (line ++ below) := by simp [isLine.whole]
    have kept := oneLine.covers_newline newline
    have narrow : '\n'.utf8Size = 1 := rfl
    rw [← Bool.not_eq_true, covers_iff] at kept
    rw [covers_iff] at covered
    simp only [List.concat_eq_append, Text.width_append, Text.width_cons, Text.width_nil,
      narrow] at covered ⊢
    omega

end Substitution

/-- The substitutions on the line with a number, as seen from that line. -/
def onLine (text : Text) (edits : List Substitution) (number : Nat) : List Substitution :=
  (edits.filter fun edit => text.lineNumber edit.offset == number).map (inLine text)

/-! ### One line -/

/-- A newline that is not replaced stays, and parts the substitutions: those in front of it and
those behind are carried out apart. -/
theorem substituteFrom_newline (edits : List Substitution) (offset : Nat) (line rest : Text)
    (kept : edits.any (covers (offset + line.width)) = false) :
    substituteFrom edits offset (line ++ '\n' :: rest) =
      substituteFrom edits offset line ++
        '\n' :: substituteFrom edits (offset + line.width + 1) rest := by
  induction line generalizing offset with
  | nil =>
    rw [Text.width_nil, Nat.add_zero] at kept
    have unwritten : edits.filter (rewritesAt offset) = [] := by
      rw [List.filter_eq_nil_iff]
      intro edit member
      have uncovered := List.any_eq_false.mp kept edit member
      rw [covers_iff] at uncovered
      rw [rewritesAt_iff]
      omega
    have narrow : '\n'.utf8Size = 1 := rfl
    simp [substituteFrom, rewritten, unwritten, kept, narrow]
  | cons c line ih =>
    rw [Text.width_cons, ← Nat.add_assoc] at kept
    rw [List.cons_append, substituteFrom, ih _ kept, substituteFrom,
      Text.width_cons, ← Nat.add_assoc]
    simp only [List.append_assoc]

section Line

variable {text above line below : Text} {edits : List Substitution}

/-- A substitution is on a line when it starts between the start and the end of the line.
From there its offset is counted. -/
theorem offset_inLine (isLine : Text.LineIn text above line below) {edit : Substitution}
    (oneLine : edit.OneLine text) :
    (text.lineNumber edit.offset = above.count '\n' + 1 ↔
      above.width ≤ edit.offset ∧ edit.offset ≤ above.width + line.width) ∧
      (text.lineNumber edit.offset = above.count '\n' + 1 →
        edit.offset = above.width + (edit.inLine text).offset) := by
  obtain ⟨left, old, right, whole, offset, -, -⟩ := oneLine
  rw [List.append_assoc] at whole
  have number := isLine.lineNumber_eq_iff whole
  rw [offset] at number
  refine ⟨number, ?_⟩
  intro same
  obtain ⟨behind, inside⟩ := number.mp same
  have start := isLine.lineBounds_eq whole (by rwa [offset]) (by rwa [offset])
  rw [offset] at start
  show edit.offset = above.width + (edit.offset - (text.lineBounds edit.offset).1)
  rw [start]
  omega

/-- A test by offsets that takes only what is on the line takes the same substitutions
there as among all. -/
theorem filter_onLine (isLine : Text.LineIn text above line below)
    (oneLine : ∀ edit ∈ edits, edit.OneLine text) (takes : Nat → Substitution → Bool) (place : Nat)
    (shifts : ∀ edit : Substitution, edit.offset = above.width + (edit.inLine text).offset →
      (takes place (edit.inLine text) = true ↔ takes (above.width + place) edit = true))
    (within : ∀ edit ∈ edits, takes (above.width + place) edit = true →
      above.width ≤ edit.offset ∧ edit.offset ≤ above.width + line.width) :
    (onLine text edits (above.count '\n' + 1)).filter (takes place) =
      (edits.filter (takes (above.width + place))).map (inLine text) := by
  rw [onLine, List.filter_map, List.filter_filter]
  congr 1
  apply List.filter_congr
  intro edit member
  obtain ⟨number, offset⟩ := offset_inLine isLine (oneLine edit member)
  rw [Bool.eq_iff_iff, Bool.and_eq_true, beq_iff_eq]
  constructor
  · rintro ⟨taken, on⟩
    exact (shifts edit (offset on)).mp taken
  · intro taken
    have on := number.mpr (within edit member taken)
    exact ⟨(shifts edit (offset on)).mpr taken, on⟩

/-- From the start of a line on, the substitutions do what those on the line do from its
own start on. -/
theorem substituteFrom_line (isLine : Text.LineIn text above line below)
    (oneLine : ∀ edit ∈ edits, edit.OneLine text) :
    substituteFrom edits above.width line =
      substitute (onLine text edits (above.count '\n' + 1)) line := by
  have length (edit : Substitution) : (edit.inLine text).length = edit.length := rfl
  -- What is inserted, rewritten or covered along the line is decided by the substitutions
  -- that start on it: none of those that start above goes over the newline in between.
  apply substituteFrom_shift above.width 0 line
  · intro place _ inside
    have chosen := filter_onLine isLine oneLine insertsAt place
      (by
        intro edit offset
        rw [insertsAt_iff, insertsAt_iff, length]
        omega)
      (by
        intro edit _ taken
        rw [insertsAt_iff] at taken
        omega)
    rw [inserted, inserted, chosen, ← List.map_reverse, List.flatMap_map]
    rfl
  · intro place _ inside
    have chosen := filter_onLine isLine oneLine rewritesAt place
      (by
        intro edit offset
        rw [rewritesAt_iff, rewritesAt_iff, length]
        omega)
      (by
        intro edit _ taken
        rw [rewritesAt_iff] at taken
        omega)
    rw [rewritten, rewritten, chosen, List.head?_map, Option.map_map]
    rfl
  · intro place _ inside
    have chosen := filter_onLine isLine oneLine covers place
      (by
        intro edit offset
        rw [covers_iff, covers_iff, length]
        omega)
      (by
        intro edit member taken
        have behind := (oneLine edit member).le_offset isLine taken
        rw [covers_iff] at taken
        omega)
    have uncovered (edits : List Substitution) (offset : Nat) :
        edits.any (covers offset) = false ↔ edits.filter (covers offset) = [] := by
      rw [List.any_eq_false, List.filter_eq_nil_iff]
    rw [Bool.eq_iff_iff, ← Decidable.not_iff_not, Bool.not_eq_true, Bool.not_eq_true, uncovered,
      uncovered, chosen, List.map_eq_nil_iff]

/-! ### All lines -/

/-- Where nothing with a newline is put in, no newline comes in, so that a line stays one line. -/
theorem oneLine_substituteFrom (unbroken : ∀ edit ∈ edits, ∀ c ∈ edit.new, c ≠ '\n') (offset : Nat)
    (oneLine : ∀ c ∈ line, c ≠ '\n') : ∀ c ∈ substituteFrom edits offset line, c ≠ '\n' := by
  have oneLine_inserted (offset : Nat) : ∀ c ∈ inserted edits offset, c ≠ '\n' := by
    intro c listed
    obtain ⟨edit, chosen, listed'⟩ := List.mem_flatMap.mp listed
    exact unbroken edit (List.mem_of_mem_filter (List.mem_reverse.mp chosen)) c listed'
  have oneLine_rewritten (offset : Nat) : ∀ c ∈ rewritten edits offset, c ≠ '\n' := by
    intro c listed
    rw [rewritten] at listed
    cases chosen : (edits.filter (rewritesAt offset)).head? with
    | none =>
      rw [chosen] at listed
      cases listed
    | some edit =>
      rw [chosen] at listed
      exact unbroken edit (List.mem_of_mem_filter (List.mem_of_mem_head? chosen)) c listed
  induction line generalizing offset with
  | nil => exact oneLine_inserted offset
  | cons c line ih =>
    obtain ⟨first, others⟩ := List.forall_mem_cons.mp oneLine
    rw [substituteFrom]
    simp only [List.forall_mem_append]
    refine ⟨⟨⟨oneLine_inserted offset, oneLine_rewritten offset⟩, ?_⟩, ih _ others⟩
    split
    · simp
    · simpa using first

/-- The lines from one on are edited line by line. The induction is on the lines that are
left; `above` are the lines in front of them. -/
theorem splitOn_substituteFrom (oneLine : ∀ edit ∈ edits, edit.OneLine text) (above rest : Text)
    (whole : text = above ++ rest) (opened : ∀ c ∈ above.getLast?, c = '\n') :
    (substituteFrom edits above.width rest).splitOn '\n' =
      (rest.splitOn '\n').mapIdx fun index line =>
        substitute (onLine text edits (above.count '\n' + index + 1)) line := by
  have unbroken : ∀ edit ∈ edits, ∀ c ∈ edit.new, c ≠ '\n' := by
    intro edit member c listed
    obtain ⟨_, old, _, -, -, -, line⟩ := oneLine edit member
    exact line c (List.mem_append_right old listed)
  induction rest using Text.lineInduction generalizing above with
  | last line line_oneLine =>
    have isLine : Text.LineIn text above line [] :=
      ⟨by rw [whole, List.append_nil], opened, line_oneLine, by simp⟩
    rw [Text.splitOn_line line_oneLine,
      Text.splitOn_line (oneLine_substituteFrom unbroken _ line_oneLine),
      substituteFrom_line isLine oneLine]
    rfl
  | further line rest line_oneLine ih =>
    have isLine : Text.LineIn text above line ('\n' :: rest) :=
      ⟨by rw [whole, List.append_assoc], opened, line_oneLine, by simp⟩
    have kept : edits.any (covers (above.width + line.width)) = false := by
      rw [List.any_eq_false, ← Text.width_append]
      intro edit member
      rw [(oneLine edit member).covers_newline isLine.whole]
      exact Bool.false_ne_true
    have start : Text.width (above ++ line ++ ['\n']) = above.width + line.width + 1 := by
      rw [Text.width_append, Text.width_append]
      rfl
    have number : (above ++ line ++ ['\n']).count '\n' = above.count '\n' + 1 := by
      rw [List.count_append, List.count_append, Text.count_of_oneLine line_oneLine]
      rfl
    have below := ih (above ++ line ++ ['\n'])
      (by rw [isLine.whole, List.append_assoc _ ['\n'] rest]; rfl) (by simp)
    rw [start, number] at below
    rw [substituteFrom_newline edits above.width line rest kept,
      Text.splitOn_append_newline (oneLine_substituteFrom unbroken _ line_oneLine), below,
      Text.splitOn_append_newline line_oneLine, List.mapIdx_cons,
      substituteFrom_line isLine oneLine]
    simp only [Nat.add_zero, Nat.add_assoc, Nat.add_comm 1]

/-- Substitutions within lines are carried out line by line. -/
theorem splitOn_substitute (oneLine : ∀ edit ∈ edits, edit.OneLine text) :
    (substitute edits text).splitOn '\n' =
      (text.splitOn '\n').mapIdx fun index line =>
        substitute (onLine text edits (index + 1)) line := by
  have lines := splitOn_substituteFrom oneLine [] text rfl (by simp)
  simpa [substitute] using lines

end Line

end Repair

open Repair

namespace Checker

variable {keep : Rule → Bool} {parse : Text → Verdict} {globals : Globals}

/-- What the findings substitute, and what for, lies on one line. -/
theorem oneLine_of_mem_substitutions [Engine] {text : Text} {edit : Substitution}
    (member : edit ∈ substitutions text ((keeping keep parse globals).accepted text)) :
    edit.OneLine text := by
  obtain ⟨finding, accepted, asked⟩ := List.mem_filterMap.mp member
  obtain ⟨left, right, new, edits⟩ := exists_edits_of_mem_accepted accepted
  rw [edits.substitution?_eq] at asked
  obtain rfl := Option.some.inj asked
  exact ⟨left, finding.matched, right, edits.whole, edits.offset, edits.length, edits.oneLine⟩

/-- With any of the built-in rules left out, any parser and any known names: neither the
match of a finding with a remedy nor what the remedy gives has a newline. Mending keeps the
number of newlines, and each line of the mended text is the line with the same number of
the original, with those of the applied remedies carried out that are on this line. -/
theorem mend_line_by_line [Engine] (keep : Rule → Bool) (parse : Text → Verdict) (globals : Globals)
    (text : Text) :
    let checker := keeping keep parse globals
    let edits := substitutions text (checker.accepted text)
    (∀ finding ∈ checker.inspect text, finding.isFixable = true →
        '\n' ∉ finding.matched ∧ ∀ new, finding.replacement? = some new → '\n' ∉ new) ∧
      (checker.mend text).text = substitute edits text ∧
      (checker.mend text).applied = edits.length ∧
      (checker.mend text).text.count '\n' = text.count '\n' ∧
      (checker.mend text).text.splitOn '\n' =
        (text.splitOn '\n').mapIdx fun index line =>
          substitute (onLine text edits (index + 1)) line := by
  intro checker edits
  have report : checker.mend text = _ := run_eq_substitute text (checker.inspect text)
  have mended : (checker.mend text).text = substitute edits text := by
    rw [report]
    rfl
  have lines : (checker.mend text).text.splitOn '\n' =
      (text.splitOn '\n').mapIdx fun index line =>
        substitute (onLine text edits (index + 1)) line := by
    rw [mended]
    apply splitOn_substitute
    intro edit member
    exact oneLine_of_mem_substitutions member
  refine ⟨?_, mended, ?_, ?_, lines⟩
  · intro finding member fixable
    obtain ⟨left, right, new, edit⟩ := exists_edits member fixable
    obtain ⟨matched, replaced⟩ := List.forall_mem_append.mp edit.oneLine
    refine ⟨fun listed => matched _ listed rfl, ?_⟩
    intro new' remedied listed
    rw [edit.replaced] at remedied
    obtain rfl := Option.some.inj remedied
    exact replaced _ listed rfl
  · rw [report]
    rfl
  · have length := congrArg List.length lines
    rw [List.length_mapIdx, Text.length_splitOn, Text.length_splitOn] at length
    exact Nat.add_right_cancel length

/-- A body without braces, and a constant with two remedies on its line. The third line has its
semicolon and is left as it is. -/
theorem mend_line_by_line_of_three :
    let _ : Engine := .unlimited
    let checker := keeping Rule.isFixable (fun _ => .accepted) .builtin
    let text := "else f()\nconst b = 1\nb = 2;".toList
    (∃ finding ∈ checker.inspect text, finding.isFixable = true ∧
        '\n' ∉ finding.matched ∧ ∀ new, finding.replacement? = some new → '\n' ∉ new) ∧
      (checker.mend text).text.splitOn '\n' =
        ["else \x7b f(); \x7d", "let b = 1;", "b = 2;"].map String.toList := by
  intro _ checker text
  obtain ⟨oneLine, -, -, -, lines⟩ :=
    mend_line_by_line Rule.isFixable (fun _ => .accepted) .builtin text
  obtain ⟨finding, member, fixable⟩ : ∃ finding ∈ checker.inspect text, finding.isFixable = true :=
    List.any_eq_true.mp (by decide +kernel)
  refine ⟨⟨finding, member, fixable, oneLine finding member fixable⟩, lines.trans ?_⟩
  decide +kernel

end Checker

end ScriptCheck
