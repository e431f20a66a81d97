import ScriptCheck.Proofs.CodeView
import ScriptCheck.Proofs.Matching

/-!
# Where a text can be cut

An offset is a boundary of a text when it lies between two characters, at the start or at
the end. The offsets that a check cuts its text at come from elsewhere: from the groups of
a match, and from the regions and the bracket pairs of the layout. The ends of a region
and of a pair are boundaries and lie in order, and a group stands at places of the text.
-/

namespace ScriptCheck

namespace Text

/-- The offset lies between two characters of the text, or at one of its ends. -/
def Boundary (text : Text) (offset : Nat) : Prop :=
  ∃ left right, text = left ++ right ∧ left.width = offset

/-- A text can be cut behind any of its fronts. -/
theorem Boundary.append (left right : Text) : (left ++ right).Boundary left.width :=
  ⟨left, right, rfl, rfl⟩

/-- A text can be cut at its end. -/
theorem boundary_width (text : Text) : text.Boundary text.width := ⟨text, [], by simp, rfl⟩

/-- The later of two boundaries is a boundary. -/
theorem Boundary.max {text : Text} {first second : Nat} (one : text.Boundary first)
    (other : text.Boundary second) : text.Boundary (max first second) := by
  rcases Nat.le_total first second with smaller | greater
  · rwa [Nat.max_eq_right smaller]
  · rwa [Nat.max_eq_left greater]

/-- The earlier of two boundaries is a boundary. -/
theorem Boundary.min {text : Text} {first second : Nat} (one : text.Boundary first)
    (other : text.Boundary second) : text.Boundary (min first second) := by
  rcases Nat.le_total first second with smaller | greater
  · rwa [Nat.min_eq_left smaller]
  · rwa [Nat.min_eq_right greater]

/-- Between two boundaries there is a text. -/
theorem exists_slice? {text : Text} {start stop : Nat} (first : text.Boundary start)
    (last : text.Boundary stop) (ordered : start ≤ stop) :
    ∃ piece, text.slice? start stop = some piece := by
  obtain ⟨left, right, whole, rfl⟩ := first
  obtain ⟨left', right', whole', rfl⟩ := last
  obtain ⟨gap, rfl, -⟩ := exists_gap_of_width_le (whole.symm.trans whole') ordered
  exact ⟨gap, (slice?_eq_some_iff _ _ _ _).mpr ⟨left, right', whole', rfl, (width_append _ _).symm⟩⟩

/-! ### Characters and their offsets -/

/-- A placed character stands behind a front of the text. -/
theorem exists_of_mem_placedFrom {offset position : Nat} {c : Char} {text : Text}
    (member : (position, c) ∈ text.placedFrom offset) :
    ∃ left right, text = left ++ c :: right ∧ position = offset + left.width := by
  induction text generalizing offset with
  | nil => simp [placedFrom] at member
  | cons d rest ih =>
    rcases List.mem_cons.mp member with same | later
    · obtain ⟨rfl, rfl⟩ := Prod.mk.injEq _ _ _ _ ▸ same
      exact ⟨[], rest, rfl, rfl⟩
    · obtain ⟨left, right, rfl, rfl⟩ := ih later
      exact ⟨d :: left, right, rfl, by rw [width_cons, Nat.add_assoc]⟩

/-- Every character of a text is placed behind its front. -/
theorem mem_placedFrom (offset : Nat) (left right : Text) (c : Char) :
    (offset + left.width, c) ∈ (left ++ c :: right).placedFrom offset := by
  induction left generalizing offset with
  | nil => exact .head _
  | cons d left ih =>
    rw [width_cons, ← Nat.add_assoc]
    exact .tail _ (ih _)

/-- The characters of a text are placed further and further on. -/
theorem pairwise_placedFrom (text : Text) (offset : Nat) :
    (text.placedFrom offset).Pairwise fun placed later => placed.1 < later.1 := by
  induction text generalizing offset with
  | nil => exact .nil
  | cons c rest ih =>
    refine List.pairwise_cons.mpr ⟨?_, ih _⟩
    rintro ⟨position, d⟩ member
    obtain ⟨left, right, -, rfl⟩ := exists_of_mem_placedFrom member
    have positive : 0 < c.utf8Size := c.utf8Size_pos
    show offset < offset + c.utf8Size + left.width
    omega

end Text

/-- A scan leaves out characters and moves none. -/
theorem Mode.scan_sublist (mode : Mode) (text : Text) (offset : Nat) :
    (mode.scan offset text).Sublist (text.placedFrom offset) := by
  induction text generalizing mode offset with
  | nil => exact .slnil
  | cons c rest ih =>
    have further := ih (mode.step c) (offset + c.utf8Size)
    rw [scan, Text.placedFrom]
    split
    · exact further.cons_cons _
    · exact further.cons _

/-- The characters of code are among those of the text, in order. -/
theorem Text.codeChars_sublist (text : Text) : text.codeChars.Sublist (text.placedFrom 0) := by
  rw [text.codeChars_eq_scan]
  exact Mode.code.scan_sublist text 0

/-! ### Bracket pairs -/

/-- The closer of a pair is a closer of its kind, and stands behind its opener. -/
theorem Bracket.of_mem_pairsFrom {kind : Bracket} {stack : List Nat} {code : List (Nat × Char)}
    {opened closed : Nat} (member : (opened, closed) ∈ kind.pairsFrom stack code)
    (ordered : code.Pairwise fun placed later => placed.1 < later.1)
    (below : ∀ offset ∈ stack, ∀ placed ∈ code, offset < placed.1) :
    opened < closed ∧ (closed, kind.closer) ∈ code := by
  fun_induction Bracket.pairsFrom kind stack code with
  | case1 => simp at member
  | case2 stack offset rest ih =>
    obtain ⟨first, ordered'⟩ := List.pairwise_cons.mp ordered
    have below' : ∀ position ∈ offset :: stack, ∀ placed ∈ rest, position < placed.1 := by
      intro position listed placed later
      rcases List.mem_cons.mp listed with rfl | listed
      · exact first placed later
      · exact below position listed placed (.tail _ later)
    obtain ⟨behind, closes⟩ := ih member ordered' below'
    exact ⟨behind, .tail _ closes⟩
  | case3 offset rest notOpener ih =>
    obtain ⟨behind, closes⟩ :=
      ih member (List.pairwise_cons.mp ordered).2 (by simp)
    exact ⟨behind, .tail _ closes⟩
  | case4 offset rest top outer notOpener ih =>
    rcases List.mem_cons.mp member with same | member
    · obtain ⟨rfl, rfl⟩ : opened = top ∧ closed = offset := by simpa using same
      exact ⟨below _ (.head _) _ (.head _), .head _⟩
    · obtain ⟨behind, closes⟩ := ih member (List.pairwise_cons.mp ordered).2
        fun position listed placed later => below position (.tail _ listed) placed (.tail _ later)
      exact ⟨behind, .tail _ closes⟩
  | case5 stack offset c rest notOpener notCloser ih =>
    obtain ⟨behind, closes⟩ := ih member (List.pairwise_cons.mp ordered).2
      fun position listed placed later => below position listed placed (.tail _ later)
    exact ⟨behind, .tail _ closes⟩

/-- The closer of a pair of brackets stands in the text, behind the opener. Pairs are made of placed
characters, which come in the order of the text. -/
theorem Text.exists_closer {text : Text} {opened closed : Nat}
    (found : text.layout.matchingClose? opened = some closed) :
    opened < closed ∧ ∃ (kind : Bracket) (left right : Text),
      text = left ++ kind.closer :: right ∧ left.width = closed := by
  obtain ⟨kind, member⟩ : ∃ kind : Bracket, (opened, closed) ∈ kind.pairs text.codeChars := by
    obtain ⟨front, back, listed, -⟩ := List.lookup_eq_some_iff.mp found
    have member : (opened, closed) ∈ text.layout.pairs := by simp [listed]
    simp only [layout, List.mem_append] at member
    rcases member with (member | member) | member
    · exact ⟨.brace, member⟩
    · exact ⟨.paren, member⟩
    · exact ⟨.square, member⟩
  obtain ⟨behind, closes⟩ := Bracket.of_mem_pairsFrom member
    ((text.pairwise_placedFrom 0).sublist text.codeChars_sublist) (by simp)
  obtain ⟨left, right, whole, stands⟩ :=
    exists_of_mem_placedFrom (text.codeChars_sublist.subset closes)
  exact ⟨behind, kind, left, right, whole, by omega⟩

/-- A closing bracket takes one byte. -/
theorem Bracket.utf8Size_closer (kind : Bracket) : kind.closer.utf8Size = 1 := by
  cases kind <;> rfl

/-- A pair of brackets lies in order, and behind its closer the text can be cut. -/
theorem Text.of_matchingClose? {text : Text} {opened closed : Nat}
    (found : text.layout.matchingClose? opened = some closed) :
    opened < closed ∧ text.Boundary closed ∧ text.Boundary (closed + 1) := by
  obtain ⟨behind, kind, left, right, rfl, rfl⟩ := Text.exists_closer found
  refine ⟨behind, ⟨left, _, rfl, rfl⟩, left ++ [kind.closer], right, by simp, ?_⟩
  simp [kind.utf8Size_closer]

/-! ### Regions -/

/-- Both ends of a region are boundaries, in order. -/
theorem Segment.of_mem_placeFrom (before : Text) (segments : List Segment) {region : Region}
    (member : region ∈ placeFrom before.width segments) :
    (before ++ segments.flatMap Segment.body).Boundary region.start ∧
      (before ++ segments.flatMap Segment.body).Boundary region.stop ∧
      region.start ≤ region.stop := by
  induction segments generalizing before with
  | nil => simp [placeFrom] at member
  | cons segment segments ih =>
    rcases List.mem_cons.mp member with rfl | later
    · refine ⟨.append _ _, ?_, Nat.le_add_right _ _⟩
      exact ⟨before ++ segment.body, segments.flatMap Segment.body, by simp, by simp⟩
    · rw [← Text.width_append] at later
      simpa using ih (before ++ segment.body) later

/-- Each region starts where the ones in front of it have stopped, or later. -/
theorem Segment.pairwise_placeFrom (offset : Nat) (segments : List Segment) :
    (placeFrom offset segments).Pairwise (fun region later => region.stop ≤ later.start) ∧
      ∀ region ∈ placeFrom offset segments, offset ≤ region.start ∧ region.start ≤ region.stop := by
  induction segments generalizing offset with
  | nil => exact ⟨.nil, by simp [placeFrom]⟩
  | cons segment segments ih =>
    obtain ⟨ordered, above⟩ := ih (offset + segment.body.width)
    refine ⟨List.pairwise_cons.mpr ⟨fun region later => (above region later).1, ordered⟩, ?_⟩
    intro region member
    rcases List.mem_cons.mp member with rfl | later
    · exact ⟨Nat.le_refl _, Nat.le_add_right _ _⟩
    · obtain ⟨behind, inOrder⟩ := above region later
      exact ⟨Nat.le_trans (Nat.le_add_right _ _) behind, inOrder⟩

/-- The regions of a text follow each other without overlap. -/
theorem Text.pairwise_regions (text : Text) :
    text.regions.Pairwise fun region later => region.stop ≤ later.start :=
  (Segment.pairwise_placeFrom 0 text.segments).1

/-- A region of a text does not stop in front of its start. -/
theorem Text.start_le_stop {text : Text} {region : Region} (member : region ∈ text.regions) :
    region.start ≤ region.stop :=
  ((Segment.pairwise_placeFrom 0 text.segments).2 region member).2

/-- A region starts and stops where the text can be cut. -/
theorem Text.boundary_of_mem {text : Text} {region : Region} (member : region ∈ text.regions) :
    text.Boundary region.start ∧ text.Boundary region.stop := by
  obtain ⟨opens, closes, -⟩ := Segment.of_mem_placeFrom [] text.segments member
  rw [List.nil_append, text.laid_segments.flatMap_body] at opens closes
  exact ⟨opens, closes⟩

/-- Behind the regions that stop at an offset or in front of it, all stop behind it. -/
theorem Text.lt_stop_of_mem_regionsAfter {text : Text} {offset : Nat} {region : Region}
    (member : region ∈ text.layout.regionsAfter offset) : offset < region.stop := by
  have ordered := text.pairwise_regions
  have inOrder := @start_le_stop text
  rw [Layout.regionsAfter] at member
  change region ∈ text.regions.dropWhile _ at member
  generalize text.regions = regions at ordered inOrder member
  induction regions with
  | nil => simp at member
  | cons first rest ih =>
    obtain ⟨later, ordered'⟩ := List.pairwise_cons.mp ordered
    have inOrder' : ∀ {region}, region ∈ rest → region.start ≤ region.stop :=
      fun listed => inOrder (.tail _ listed)
    by_cases passed : first.stop ≤ offset
    · rw [List.dropWhile_cons_of_pos (by simpa using passed)] at member
      exact ih ordered' inOrder' member
    · rw [List.dropWhile_cons_of_neg (by simpa using passed)] at member
      rcases List.mem_cons.mp member with rfl | member
      · exact Nat.not_le.mp passed
      · have behind := later region member
        have reaches := inOrder' member
        omega

/-- The regions of a span between two boundaries are texts. -/
theorem Text.exists_slice?_of_regionsWithin {text : Text} {start stop : Nat}
    (first : text.Boundary start) (last : text.Boundary stop) (ordered : start ≤ stop)
    {region : Region} (member : region ∈ text.layout.regionsWithin start stop) :
    ∃ piece, text.slice? region.start region.stop = some piece := by
  obtain ⟨whole, taken, rfl⟩ := List.mem_map.mp member
  have starts : whole.start < stop := by
    simpa using List.all_eq_true.mp List.all_takeWhile whole taken
  have after : whole ∈ text.layout.regionsAfter start := (List.takeWhile_sublist _).subset taken
  have listed : whole ∈ text.regions := (List.dropWhile_sublist _).subset after
  have stops : start < whole.stop := lt_stop_of_mem_regionsAfter after
  obtain ⟨opens, closes⟩ := boundary_of_mem listed
  have inOrder := start_le_stop listed
  refine exists_slice? (opens.max first) (closes.min last) ?_
  show max whole.start start ≤ min whole.stop stop
  omega

/-! ### Matches and their groups -/

/-- A place of a text. -/
def Cursor.Within (text : Text) (cursor : Cursor) : Prop :=
  text = cursor.before.reverse ++ cursor.after

/-- The stretch between two places of a text. -/
structure Piece.Within (text : Text) (piece : Piece) : Prop where
  start : piece.start.Within text
  spans : piece.start.Spans piece.stop piece.body

/-- A reading of a text: its place and its groups are in the text. -/
structure Reading.Within (text : Text) (reading : Reading) : Prop where
  cursor : reading.cursor.Within text
  groups : ∀ entry ∈ reading.groups, entry.2.Within text

namespace Cursor.Within

variable {text body : Text} {cursor other : Cursor}

/-- The place at the start of a text is one of the text. -/
theorem start (text : Text) : (Cursor.start text).Within text := rfl

/-- A place further on is a place of the same text. -/
theorem spans (within : cursor.Within text) (spans : cursor.Spans other body) :
    other.Within text := by
  rw [Within, within, spans.ahead, spans.behind, List.reverse_append, List.reverse_reverse,
    List.append_assoc]

/-- The places that a search tries are places of the text. -/
theorem of_mem_all (listed : cursor ∈ Cursor.all text) : cursor.Within text := by
  obtain ⟨left, spans⟩ := Cursor.spans_of_mem_all listed
  exact (start text).spans spans

/-- The offset of a place is the width of what stands in front of it. -/
theorem offset_eq (cursor : Cursor) : cursor.offset = Text.width cursor.before.reverse := by
  rw [cursor.placed, Text.width_reverse]

/-- A text can be cut at each place, behind what it has passed. -/
theorem upTo?_offset (within : cursor.Within text) :
    text.upTo? cursor.offset = some cursor.before.reverse :=
  (Text.upTo?_eq_some_iff _ _ _).mpr ⟨cursor.after, within, (offset_eq cursor).symm⟩

end Cursor.Within

/-- A piece of a text stops at a place of the text. -/
theorem Piece.Within.stop {text : Text} {piece : Piece} (within : piece.Within text) :
    piece.stop.Within text :=
  within.start.spans within.spans

namespace Pattern

variable {text : Text} {reading next : Reading}

/-- Rounds of a step that stays in the text stay in it. -/
theorem within_of_mem_roundEnds {step : Reading → List Reading} {greedy : Bool} {bound : Nat}
    (sound : ∀ reading next : Reading, next ∈ step reading → reading.Within text → next.Within text)
    (reached : next ∈ roundEnds step greedy bound reading) (within : reading.Within text) :
    next.Within text := by
  induction bound generalizing reading with
  | zero =>
    obtain rfl : next = reading := by simpa [roundEnds] using reached
    exact within
  | succ bound ih =>
    rcases of_mem_roundEnds_succ reached with rfl | ⟨middle, stepped, rest⟩
    · exact within
    · exact ih rest (sound reading middle stepped within)

/-- A pattern reads on in the same text, and the groups it closes are pieces of it. The induction
follows the pattern; only a group adds a piece. -/
theorem within_of_mem_ends (pattern : Pattern) (reading next : Reading)
    (reached : next ∈ pattern.ends reading) (within : reading.Within text) : next.Within text := by
  induction pattern generalizing reading next with
  | empty =>
    obtain rfl : next = reading := by simpa [ends] using reached
    exact within
  | char accepts =>
    simp only [ends] at reached
    split at reached
    · simp at reached
    · rename_i c rest ahead
      split at reached
      · obtain rfl := List.mem_singleton.mp reached
        exact ⟨within.cursor.spans (.pass ahead), within.groups⟩
      · simp at reached
  | run greedy accepts =>
    obtain ⟨body, -, spans, -⟩ := advances_of_mem_ends _ reading next reached
    simp only [ends, List.mem_map] at reached
    obtain ⟨stop, -, rfl⟩ := reached
    exact ⟨within.cursor.spans spans, within.groups⟩
  | anchor condition =>
    simp only [ends] at reached
    split at reached
    · obtain rfl := List.mem_singleton.mp reached
      exact within
    · simp at reached
  | seq first second firstWithin secondWithin =>
    obtain ⟨middle, front, back⟩ := List.mem_flatMap.mp (by simpa only [ends] using reached)
    exact secondWithin middle next back (firstWithin reading middle front within)
  | either first second firstWithin secondWithin =>
    rcases List.mem_append.mp (by simpa only [ends] using reached) with chosen | chosen
    · exact firstWithin reading next chosen within
    · exact secondWithin reading next chosen within
  | rounds greedy round roundWithin =>
    obtain ⟨middle, first, rest⟩ := of_mem_ends_rounds reached
    exact within_of_mem_roundEnds roundWithin rest (roundWithin reading middle first within)
  | group number inner innerWithin =>
    obtain ⟨last, inside, rfl⟩ := List.mem_map.mp (by simpa only [ends] using reached)
    obtain ⟨body, -, spans, -⟩ := advances_of_mem_ends inner reading last inside
    have within' := innerWithin reading last inside within
    refine ⟨within'.cursor, ?_⟩
    intro entry listed
    rcases List.mem_cons.mp listed with rfl | listed
    · exact ⟨within.cursor, by rwa [spans.piece_body]⟩
    · exact within'.groups entry listed

/-- A match of a search and its groups are stretches of the text, so that their texts and offsets
can be asked for without failing. -/
theorem within_of_mem_allMatches {pattern : Pattern} {found : Match} {number : Nat} {piece : Piece}
    (member : found ∈ pattern.allMatches text) (group : found.group? number = some piece) :
    piece.Within text := by
  obtain ⟨cursor, listed, matched⟩ := matchAt?_of_mem_matchesFrom member
  obtain ⟨reading, first, rfl⟩ := Option.map_eq_some_iff.mp matched
  have start : Reading.Within text ⟨cursor, []⟩ := ⟨.of_mem_all listed, by simp⟩
  have reached := List.mem_of_mem_head? first
  have stop := within_of_mem_ends pattern _ reading reached start
  cases number with
  | zero =>
    obtain rfl := Option.some.inj group
    obtain ⟨body, -, spans, -⟩ := advances_of_mem_ends pattern _ reading reached
    exact ⟨start.cursor, by rwa [spans.piece_body]⟩
  | succ index =>
    have kept : reading.groups.lookup (index + 1) = some piece := by
      by_cases counted : index < pattern.groupCount
      · simpa [Match.group?, counted] using group
      · simp [Match.group?, counted] at group
    obtain ⟨front, back, split, -⟩ := List.lookup_eq_some_iff.mp kept
    exact stop.groups (index + 1, piece) (by simp [split])

end Pattern

end ScriptCheck
