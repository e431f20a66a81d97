import Mathlib.Data.List.Forall2
import ScriptCheck.Proofs.Placement
import ScriptCheck.Proofs.Crlf.Matches

/-!
# Searching line by line

A search gives every match that no earlier one reaches. For a pattern that runs to the end of
its line this says which matches those are: on each line the first one, and no other.

A pattern that stays in its line looks at nothing else, apart from the question whether the line
goes on. Two places of two texts that see the same line therefore have the same match.
-/

namespace ScriptCheck

/-- What stands in front of a newline, or of nothing, is the first line. -/
theorem Text.firstLine_eq {line rest : Text} (oneLine : ∀ c ∈ line, c ≠ '\n')
    (ends : ∀ c ∈ rest.head?, c = '\n') : Text.firstLine (line ++ rest) = line := by
  rw [firstLine_append _ _ oneLine]
  cases rest with
  | nil => exact List.append_nil line
  | cons c rest =>
    obtain rfl := ends c rfl
    exact List.append_nil line

/-- Of two places of a text the second is reached from the first. -/
theorem Cursor.Within.exists_spans {text : Text} {place cursor : Cursor}
    (within : place.Within text) (within' : cursor.Within text)
    (ordered : place.offset ≤ cursor.offset) : ∃ body, place.Spans cursor body := by
  rw [offset_eq, offset_eq] at ordered
  obtain ⟨body, before, after⟩ :=
    Text.exists_gap_of_width_le (within.symm.trans within') ordered
  refine ⟨body, after, ?_⟩
  rw [← List.reverse_inj, before]
  simp

/-- A place from which another is reached is one of the same text. -/
theorem Cursor.Spans.within {text body : Text} {place cursor : Cursor}
    (spans : place.Spans cursor body) (within : cursor.Within text) : place.Within text := by
  rw [Cursor.Within, within, spans.behind, spans.ahead]
  simp

namespace Cursor

/-- The place between two texts. -/
def between (left right : Text) : Cursor := ⟨left.reverse, right, _, rfl⟩

/-- The place between two texts is one of the text they make up. -/
theorem within_between (left right : Text) : (between left right).Within (left ++ right) := by
  simp [Cursor.Within, between]

/-- Passing a stretch leads to the place behind it. -/
theorem spans_between (left body right : Text) :
    (between left (body ++ right)).Spans (between (left ++ body) right) body :=
  ⟨rfl, List.reverse_append⟩

end Cursor

namespace Pattern

variable {pattern : Pattern} {text : Text} {cursor : Cursor} {found : Match}

/-! ### The matches that count -/

/-- A match counts when every earlier one stops in front of it; one that is not empty may also
start where an earlier one stops. -/
theorem mem_matchesFrom_of_clear {cursors : List Cursor} {last : Option Nat}
    (ordered : cursors.Pairwise fun place later => place.offset < later.offset)
    (listed : cursor ∈ cursors) (matched : pattern.matchAt? cursor = some found)
    (clear : ∀ place ∈ cursors, place.offset < cursor.offset →
      ∀ earlier, pattern.matchAt? place = some earlier →
        earlier.stop ≤ found.start ∧ earlier.stop < found.stop)
    (behind : ∀ stop ∈ last, stop ≤ found.start ∧ stop < found.stop) :
    found ∈ pattern.matchesFrom last cursors := by
  have start := start_of_matchAt? matched
  induction cursors generalizing last with
  | nil => cases listed
  | cons place rest ih =>
    obtain ⟨first, ordered⟩ := List.pairwise_cons.mp ordered
    rcases List.mem_cons.mp listed with rfl | later
    · have free : (last.any fun stop => cursor.offset < stop) = false := by
        cases last with
        | none => rfl
        | some stop => simpa [start] using (behind stop rfl).1
      have counts : ¬(found.stop = cursor.offset ∧ last = some cursor.offset) := by
        rintro ⟨empty, rfl⟩
        have further := (behind _ rfl).2
        omega
      rw [matchesFrom_of_some matched free counts]
      exact .head _
    · have further {last : Option Nat}
          (behind : ∀ stop ∈ last, stop ≤ found.start ∧ stop < found.stop) :
          found ∈ pattern.matchesFrom last rest :=
        ih ordered later (fun place member => clear place (.tail _ member)) behind
      rw [matchesFrom]
      split
      · exact further behind
      · split
        · exact further behind
        · rename_i earlier matched'
          split
          · exact further behind
          · apply List.mem_cons_of_mem
            apply further
            intro stop stopped
            obtain rfl := Option.some.inj stopped
            exact clear place (.head _) (first cursor later) earlier matched'

/-- The matches of a search do not overlap, and a later one stops further on, even where one of them
is empty. -/
theorem beyond_of_mem_allMatches {other : Match} (member : found ∈ pattern.allMatches text)
    (member' : other ∈ pattern.allMatches text) (ordered : found.start < other.start) :
    found.stop ≤ other.start ∧ found.stop < other.stop := by
  have apart : (pattern.allMatches text).Pairwise fun found later =>
      found.stop ≤ later.start ∧ found.stop < later.stop :=
    pairwise_beyond_matchesFrom none (Cursor.all text)
  have starts := pattern.pairwise_allMatches text
  obtain ⟨front, back, split⟩ := List.append_of_mem member
  rw [split, List.pairwise_append] at starts
  rw [split] at member' apart
  rcases List.mem_append.mp member' with ahead | behind
  · have reversed := starts.2.2 other ahead found (.head _)
    omega
  · rcases List.mem_cons.mp behind with rfl | behind
    · omega
    · exact (List.pairwise_cons.mp (List.pairwise_append.mp apart).2.1).1 other behind

/-! ### Patterns that run to the end of the line -/

/-- A pattern that stays in its line and stops at the end of it. -/
def FillsLine (pattern : Pattern) : Prop :=
  ∀ before body after captures, pattern.Fits before body after captures →
    (∀ c ∈ body, c ≠ '\n') ∧ ∀ c ∈ after.head?, c = '\n'

/-- Such a pattern matches what is ahead on the line, all of it. -/
theorem FillsLine.body_eq (fills : pattern.FillsLine)
    (matched : pattern.matchAt? cursor = some found) :
    found.body = Text.firstLine cursor.after ∧
      found.stop = cursor.offset + (Text.firstLine cursor.after).width := by
  obtain ⟨reading, first, rfl⟩ := Option.map_eq_some_iff.mp matched
  obtain ⟨body, captures, spans, fits, -⟩ :=
    advances_of_mem_ends pattern ⟨cursor, []⟩ reading (List.mem_of_mem_head? first)
  obtain ⟨oneLine, ends⟩ := fills _ _ _ _ fits
  have line : Text.firstLine cursor.after = body := by
    have ahead : cursor.after = body ++ reading.cursor.after := spans.ahead
    rw [ahead, Text.firstLine_eq oneLine ends]
  rw [line]
  exact ⟨spans.piece_body, spans.offset_eq⟩

/-- The first match on a line counts. Matches on the lines above have stopped, since each stays on
its line. -/
theorem FillsLine.mem_allMatches (fills : pattern.FillsLine) (within : cursor.Within text)
    (matched : pattern.matchAt? cursor = some found)
    (first : ∀ place body, place.Spans cursor body → body ≠ [] → (∀ c ∈ body, c ≠ '\n') →
      pattern.matchAt? place = none) :
    found ∈ pattern.allMatches text := by
  have places := Cursor.pairwise_onward (Cursor.start text) text
  refine mem_matchesFrom_of_clear places.1 within.mem_all matched ?_ (by simp)
  intro place listed ahead earlier matched'
  obtain ⟨body, spans⟩ :=
    (Cursor.Within.of_mem_all listed).exists_spans within (Nat.le_of_lt ahead)
  have start := start_of_matchAt? matched
  have ordered := start_le_stop_of_matchAt? matched
  have offset := spans.offset_eq
  by_cases broken : '\n' ∈ body
  · -- a match on an earlier line stops in front of the newline between them
    obtain ⟨front, back, rfl, oneLine⟩ := List.eq_append_cons_of_mem broken
    have line : Text.firstLine place.after = front := by
      rw [spans.ahead, List.append_assoc,
        Text.firstLine_append _ _ fun c member same => oneLine (same ▸ member)]
      exact List.append_nil front
    have stop := (fills.body_eq matched').2
    have newline : '\n'.utf8Size = 1 := rfl
    rw [line] at stop
    rw [Text.width_append, Text.width_cons] at offset
    omega
  · have present : body ≠ [] := by
      rintro rfl
      rw [Text.width_nil] at offset
      omega
    rw [first place body spans present fun c member same => broken (same ▸ member)] at matched'
    cases matched'

/-- No other match on the line counts, as an earlier one would have taken the rest of the line. -/
theorem FillsLine.matchAt?_of_mem_allMatches (fills : pattern.FillsLine)
    (member : found ∈ pattern.allMatches text) (place : Cursor) {body : Text}
    (spans : place.Spans found.whole.start body) (present : body ≠ [])
    (oneLine : ∀ c ∈ body, c ≠ '\n') : pattern.matchAt? place = none := by
  obtain ⟨cursor, listed, matched⟩ := matchAt?_of_mem_matchesFrom member
  obtain ⟨rfl, -⟩ := occurs_of_matchAt? listed matched
  have within := Cursor.Within.of_mem_all listed
  -- by induction on the place: were it the first with a match, that match would count
  induction length : place.offset using Nat.strongRecOn generalizing place body with
  | ind offset ih =>
    cases matched' : pattern.matchAt? place with
    | none => rfl
    | some earlier =>
      have counted : earlier ∈ pattern.allMatches text := by
        refine fills.mem_allMatches (spans.within within) matched' ?_
        intro place' body' spans' present' oneLine'
        have shorter : place'.offset < place.offset := by
          rw [spans'.offset_eq]
          have wide := mt (Text.width_eq_zero_iff body').mp present'
          omega
        exact ih place'.offset (length ▸ shorter) place' (spans'.trans spans)
          (by simp [present]) (List.forall_mem_append.mpr ⟨oneLine', oneLine⟩) rfl
      have start := start_of_matchAt? matched
      have start' := start_of_matchAt? matched'
      have wide := mt (Text.width_eq_zero_iff body).mp present
      have offset_eq := spans.offset_eq
      have stop := (fills.body_eq matched).2
      have stop' := (fills.body_eq matched').2
      rw [spans.ahead, Text.firstLine_append _ _ oneLine, Text.width_append] at stop'
      have apart := beyond_of_mem_allMatches counted member (by omega)
      omega

end Pattern

/-! ### Patterns that stay in their line -/

/-- Two places that see the same line. -/
structure Cursor.Alike (cursor other : Cursor) : Prop where
  before : Text.firstLine cursor.before = Text.firstLine other.before
  after : Text.firstLine cursor.after = Text.firstLine other.after

namespace Text

/-- A character other than a newline is on the first line. -/
theorem firstLine_cons {c : Char} (inLine : c ≠ '\n') (rest : Text) :
    firstLine (c :: rest) = c :: firstLine rest := by
  simp [firstLine, inLine]

/-- The first line of a text that starts with a newline is empty. -/
theorem firstLine_newline (rest : Text) : firstLine ('\n' :: rest) = [] := rfl

/-- A property that newlines lack is one of the line, if any. -/
theorem any_head?_firstLine (text : Text) {property : Char → Bool} (lacks : property '\n' = false) :
    (firstLine text).head?.any property = text.head?.any property := by
  cases text with
  | nil => rfl
  | cons c rest =>
    by_cases newline : c = '\n'
    · subst newline
      simp [firstLine_newline, lacks]
    · rw [firstLine_cons newline]
      rfl

/-- Nothing is ahead on the line exactly if a newline or nothing is. -/
theorem firstLine_eq_nil_iff (text : Text) :
    firstLine text = [] ↔ text.head?.all (· == '\n') = true := by
  cases text with
  | nil => simp [firstLine]
  | cons c rest =>
    by_cases newline : c = '\n'
    · simp [newline, firstLine_newline]
    · simp [newline, firstLine_cons]

end Text

namespace Cursor.Alike

variable {cursor other : Cursor}

/-- Places that see the same line both stand at its end, or in front of the same character. -/
theorem cases (alike : cursor.Alike other) :
    (Text.firstLine cursor.after = [] ∧ Text.firstLine other.after = []) ∨
      ∃ c rest rest', c ≠ '\n' ∧ cursor.after = c :: rest ∧ other.after = c :: rest' ∧
        (cursor.pass c rest).Alike (other.pass c rest') := by
  cases line : Text.firstLine cursor.after with
  | nil => exact .inl ⟨rfl, alike.after ▸ line⟩
  | cons c ahead =>
    right
    have along {place : Cursor} (sees : Text.firstLine place.after = c :: ahead) :
        ∃ rest, c ≠ '\n' ∧ place.after = c :: rest ∧ Text.firstLine rest = ahead := by
      cases after : place.after with
      | nil => simp [after, Text.firstLine] at sees
      | cons d rest =>
        by_cases newline : d = '\n'
        · simp [after, newline, Text.firstLine_newline] at sees
        · rw [after, Text.firstLine_cons newline] at sees
          obtain ⟨rfl, further⟩ := List.cons.inj sees
          exact ⟨rest, newline, rfl, further⟩
    obtain ⟨rest, inLine, after, further⟩ := along line
    obtain ⟨rest', -, after', further'⟩ := along (alike.after ▸ line)
    refine ⟨c, rest, rest', inLine, after, after', ?_, further.trans further'.symm⟩
    show Text.firstLine (c :: cursor.before) = Text.firstLine (c :: other.before)
    rw [Text.firstLine_cons inLine, Text.firstLine_cons inLine, alike.before]

end Cursor.Alike

/-- Two readings have come along the same stretch, and their groups have the same texts. -/
structure Reading.Alongside (reading other next next' : Reading) : Prop where
  alike : next.cursor.Alike next'.cursor
  spans : ∃ body, reading.cursor.Spans next.cursor body ∧ other.cursor.Spans next'.cursor body
  groups : ∀ number, (next.groups.lookup number).map Piece.body =
    (next'.groups.lookup number).map Piece.body

namespace Reading.Alongside

variable {reading other middle middle' next next' : Reading}

/-- Two readings that have not moved have come along alike. -/
theorem refl (alike : reading.cursor.Alike other.cursor)
    (groups : ∀ number, (reading.groups.lookup number).map Piece.body =
      (other.groups.lookup number).map Piece.body) : Alongside reading other reading other :=
  ⟨alike, ⟨[], .refl _, .refl _⟩, groups⟩

/-- Two readings that come along alike twice do so in a row. -/
theorem trans (first : Alongside reading other middle middle')
    (second : Alongside middle middle' next next') : Alongside reading other next next' := by
  obtain ⟨front, spans, spans'⟩ := first.spans
  obtain ⟨back, further, further'⟩ := second.spans
  exact ⟨second.alike, ⟨front ++ back, spans.trans further, spans'.trans further'⟩, second.groups⟩

/-- Closing a group gives it the text passed since it was opened. -/
theorem group (number : Nat) (alongside : Alongside reading other next next') :
    Alongside reading other
      { next with groups := (number, ⟨reading.cursor, next.cursor⟩) :: next.groups }
      { next' with groups := (number, ⟨other.cursor, next'.cursor⟩) :: next'.groups } := by
  obtain ⟨body, spans, spans'⟩ := alongside.spans
  refine ⟨alongside.alike, ⟨body, spans, spans'⟩, ?_⟩
  intro key
  by_cases same : key = number
  · subst same
    simp [spans.piece_body, spans'.piece_body]
  · simp [List.lookup_cons, beq_eq_false_iff_ne.mpr same, alongside.groups key]

end Reading.Alongside

namespace Pattern

/-- A pattern that takes no newline and asks for neither end of the text. Patterns in rounds are
left out. -/
def staysInLine : Pattern → Bool
  | empty => true
  | char accepts | run _ accepts => !accepts '\n'
  | anchor condition => condition != .textStart && condition != .textEnd
  | seq first second | either first second => first.staysInLine && second.staysInLine
  | rounds _ _ => false
  | group _ inner => inner.staysInLine

/-- A condition on the place that does not ask for an end of the text holds at places with the same
line or at none of them. -/
theorem holds_of_alike {cursor other : Cursor} (alike : cursor.Alike other) {condition : Anchor}
    (stays : (anchor condition).staysInLine = true) :
    condition.holds cursor = condition.holds other := by
  have edges : Anchor.atWordEdge cursor = Anchor.atWordEdge other := by
    simp only [Anchor.atWordEdge]
    rw [← Text.any_head?_firstLine cursor.before rfl, ← Text.any_head?_firstLine cursor.after rfl,
      alike.before, alike.after, Text.any_head?_firstLine _ rfl, Text.any_head?_firstLine _ rfl]
  cases condition with
  | textStart => cases stays
  | textEnd => cases stays
  | lineStart =>
    rw [Bool.eq_iff_iff, Anchor.holds, Anchor.holds, ← Text.firstLine_eq_nil_iff, alike.before,
      Text.firstLine_eq_nil_iff]
  | lineEnd =>
    rw [Bool.eq_iff_iff, Anchor.holds, Anchor.holds, ← Text.firstLine_eq_nil_iff, alike.after,
      Text.firstLine_eq_nil_iff]
  | wordEdge => exact edges
  | noWordEdge => rw [Anchor.holds, Anchor.holds, edges]

/-- A run of characters passes the same stretches from both places, since it stops at the end of the
line at the latest. -/
theorem alongside_stops {accepts : Char → Bool} (newline : accepts '\n' = false)
    {cursor other : Cursor} (alike : cursor.Alike other) {ahead ahead' : Text}
    (sees : cursor.after = ahead) (sees' : other.after = ahead') :
    List.Forall₂ (fun place place' => place.Alike place' ∧
        ∃ body, cursor.Spans place body ∧ other.Spans place' body)
      (stops accepts cursor ahead) (stops accepts other ahead') := by
  have ended {place : Cursor} {ahead : Text} (sees : place.after = ahead)
      (ends : Text.firstLine place.after = []) : stops accepts place ahead = [place] := by
    cases ahead with
    | nil => rfl
    | cons c rest =>
      rw [sees, Text.firstLine_eq_nil_iff] at ends
      obtain rfl : c = '\n' := by simpa using ends
      simp [stops, newline]
  have here : cursor.Alike other ∧ ∃ body, cursor.Spans cursor body ∧ other.Spans other body :=
    ⟨alike, [], .refl _, .refl _⟩
  induction ahead generalizing cursor other ahead' with
  | nil =>
    have ends : Text.firstLine cursor.after = [] := by rw [sees]; rfl
    rw [ended sees ends, ended sees' (alike.after ▸ ends)]
    exact .cons here .nil
  | cons d ahead ih =>
    rcases alike.cases with ⟨ends, ends'⟩ | ⟨c, rest, rest', -, after, after', further⟩
    · rw [ended sees ends, ended sees' ends']
      exact .cons here .nil
    · obtain ⟨rfl, rfl⟩ := List.cons.inj (sees.symm.trans after)
      obtain rfl := sees'.symm.trans after'
      rw [stops, stops]
      refine .cons here ?_
      split
      · refine (ih further rfl rfl
          ⟨further, [], .refl _, .refl _⟩).imp ?_
        rintro place place' ⟨alike, body, spans, spans'⟩
        exact ⟨alike, d :: body, (Cursor.Spans.pass sees).trans spans,
          (Cursor.Spans.pass sees').trans spans'⟩
      · exact .nil

/-- From places that see the same line, a pattern that stays in it goes along the same stretches. -/
theorem alongside_ends (pattern : Pattern) (stays : pattern.staysInLine = true)
    {reading other : Reading} (alike : reading.cursor.Alike other.cursor)
    (groups : ∀ number, (reading.groups.lookup number).map Piece.body =
      (other.groups.lookup number).map Piece.body) :
    List.Forall₂ (Reading.Alongside reading other) (pattern.ends reading)
      (pattern.ends other) := by
  have refl : Reading.Alongside reading other reading other := .refl alike groups
  induction pattern generalizing reading other with
  | empty => exact .cons refl .nil
  | char accepts =>
    have newline : accepts '\n' = false := by simpa [staysInLine] using stays
    have nothing {reading : Reading} (ended : Text.firstLine reading.cursor.after = []) :
        (char accepts).ends reading = [] := by
      rw [ends]
      cases after : reading.cursor.after with
      | nil => rfl
      | cons c rest =>
        rw [after, Text.firstLine_eq_nil_iff] at ended
        obtain rfl : c = '\n' := by simpa using ended
        simp [newline]
    rcases alike.cases with ⟨ended, ended'⟩ | ⟨c, rest, rest', -, after, after', further⟩
    · rw [nothing ended, nothing ended']
      exact .nil
    · rw [ends, ends, after, after']
      simp only
      split
      · exact .cons ⟨further, ⟨[c], .pass after, .pass after'⟩, groups⟩ .nil
      · exact .nil
  | run greedy accepts =>
    have newline : accepts '\n' = false := by simpa [staysInLine] using stays
    have places := alongside_stops newline alike rfl rfl
    rw [ends, ends, List.forall₂_map_left_iff, List.forall₂_map_right_iff]
    have arrives {place place' : Cursor} (along : place.Alike place' ∧
        ∃ body, reading.cursor.Spans place body ∧ other.cursor.Spans place' body) :
        Reading.Alongside reading other { reading with cursor := place }
          { other with cursor := place' } := ⟨along.1, along.2, groups⟩
    cases greedy with
    | true => exact (List.forall₂_reverse_iff.mpr places).imp fun _ _ => arrives
    | false => exact places.imp fun _ _ => arrives
  | anchor condition =>
    rw [ends, ends, holds_of_alike alike stays]
    split
    · exact .cons refl .nil
    · exact .nil
  | seq first second firstHypothesis secondHypothesis =>
    obtain ⟨stays, stays'⟩ := Bool.and_eq_true_iff.mp stays
    refine List.rel_flatMap (firstHypothesis stays alike groups refl) ?_
    intro middle middle' along
    refine (secondHypothesis stays' along.alike along.groups ?_).imp fun _ _ => along.trans
    exact .refl along.alike along.groups
  | either first second firstHypothesis secondHypothesis =>
    obtain ⟨stays, stays'⟩ := Bool.and_eq_true_iff.mp stays
    exact List.rel_append (firstHypothesis stays alike groups refl)
      (secondHypothesis stays' alike groups refl)
  | rounds => cases stays
  | group number inner ih =>
    rw [ends, ends, List.forall₂_map_left_iff, List.forall₂_map_right_iff]
    exact (ih stays alike groups refl).imp fun _ _ along => along.group number

/-- What a pattern that stays in its line matches at a place, it matches wherever the line is the
same, with the same texts in its groups. -/
theorem matchAt?_of_alike {pattern : Pattern} (stays : pattern.staysInLine = true)
    {cursor other : Cursor} (alike : cursor.Alike other) {found : Match}
    (matched : pattern.matchAt? cursor = some found) :
    ∃ found', pattern.matchAt? other = some found' ∧ found'.body = found.body ∧
      ∀ number, (found'.group? number).map Piece.body = (found.group? number).map Piece.body := by
  have along : List.Forall₂ (Reading.Alongside ⟨cursor, []⟩ ⟨other, []⟩)
      (pattern.ends ⟨cursor, []⟩) (pattern.ends ⟨other, []⟩) :=
    alongside_ends pattern stays alike fun _ => rfl
  obtain ⟨reading, first, rfl⟩ := Option.map_eq_some_iff.mp matched
  cases readings : pattern.ends ⟨cursor, []⟩ with
  | nil => simp [readings] at first
  | cons next rest =>
    rw [readings] at along first
    obtain rfl : next = reading := by simpa using first
    obtain ⟨next', rest', together, -, others⟩ := List.forall₂_cons_left_iff.mp along
    obtain ⟨body, spans, spans'⟩ := together.spans
    have same : Piece.body ⟨other, next'.cursor⟩ = Piece.body ⟨cursor, next.cursor⟩ :=
      spans'.piece_body.trans spans.piece_body.symm
    have matched' : pattern.matchAt? other = some ⟨⟨other, next'.cursor⟩,
        (List.range pattern.groupCount).map fun index => next'.groups.lookup (index + 1)⟩ := by
      rw [matchAt?, others]
      rfl
    refine ⟨_, matched', same, ?_⟩
    intro number
    cases number with
    | zero => exact congrArg some same
    | succ index =>
      by_cases counted : index < pattern.groupCount
      · simpa [Match.group?, counted] using (together.groups (index + 1)).symm
      · simp [Match.group?, counted]

end Pattern

end ScriptCheck
