import ScriptCheck.Pattern.Search
import ScriptCheck.Proofs.Cut

/-!
# What a match says about the text

The ends of a pattern are computed in order of preference. Most uses of a match need
less: that the matched text has the form the pattern describes, between what stands
before and after it. `Fits` states that form by recursion on the pattern, and every end
of a pattern fits it. Which of several ends is preferred is not treated here.

Texts in front of a place are given nearest character first, as cursors keep them.
-/

namespace ScriptCheck

/-- What a group matched, and the text in front of it. -/
structure Capture where
  number : Nat
  before : Text
  body : Text
  deriving DecidableEq, Repr

/-- The capture of a group's piece. -/
def Piece.capture (number : Nat) (piece : Piece) : Capture :=
  ⟨number, piece.start.before, piece.body⟩

/-- A place that lies behind a stretch of text ahead of another place. -/
structure Cursor.Spans (start stop : Cursor) (body : Text) : Prop where
  ahead : start.after = body ++ stop.after
  behind : stop.before = body.reverse ++ start.before

namespace Cursor.Spans

variable {start middle stop : Cursor} {front back body : Text}

/-- From a place to itself the empty stretch is passed. -/
theorem refl (cursor : Cursor) : cursor.Spans cursor [] := ⟨rfl, rfl⟩

/-- Two stretches passed one after the other are passed together. -/
theorem trans (first : start.Spans middle front) (second : middle.Spans stop back) :
    start.Spans stop (front ++ back) :=
  ⟨by rw [first.ahead, second.ahead, List.append_assoc],
    by rw [second.behind, first.behind, List.reverse_append, List.append_assoc]⟩

/-- Passing one character spans it. -/
theorem pass {c : Char} {rest : Text} (ahead : start.after = c :: rest) :
    start.Spans (start.pass c rest) [c] :=
  ⟨ahead, rfl⟩

/-- The offset grows by the width of the stretch. -/
theorem offset_eq (spans : start.Spans stop body) : stop.offset = start.offset + body.width := by
  rw [stop.placed, start.placed, spans.behind, Text.width_append, Text.width_reverse, Nat.add_comm]

/-- The offset grows exactly when there is something in between. -/
theorem offset_lt_iff (spans : start.Spans stop body) : start.offset < stop.offset ↔ body ≠ [] := by
  have wide := Text.width_eq_zero_iff body
  rw [spans.offset_eq, ne_eq, ← wide]
  omega

/-- The piece between the two places is the stretch. -/
theorem piece_body (spans : start.Spans stop body) : Piece.body ⟨start, stop⟩ = body := by
  have length : start.after.length - stop.after.length = body.length := by
    rw [spans.ahead, List.length_append, Nat.add_sub_cancel]
  rw [Piece.body, length, spans.ahead, List.take_left]

/-- The piece between the two places is as wide as the stretch. -/
theorem piece_width (spans : start.Spans stop body) : Piece.width ⟨start, stop⟩ = body.width := by
  rw [Piece.width, spans.offset_eq, Nat.add_sub_cancel_left]

end Cursor.Spans

namespace Anchor

/-- A condition on the characters next to a place. -/
def holdsBetween (before after : Text) : Anchor → Bool
  | textStart => before.isEmpty
  | textEnd => after.isEmpty
  | lineStart => before.head?.all (· == '\n')
  | lineEnd => after.head?.all (· == '\n')
  | wordEdge => before.head?.any isWordChar != after.head?.any isWordChar
  | noWordEdge => !(before.head?.any isWordChar != after.head?.any isWordChar)

/-- A condition on a place asks only for its two neighbours. -/
theorem holds_eq (condition : Anchor) (cursor : Cursor) :
    condition.holds cursor = condition.holdsBetween cursor.before cursor.after := by
  cases condition <;> rfl

end Anchor

namespace Pattern

/-- Any number of stretches one after the other, each of which fits. -/
inductive FitsRounds (fits : Text → Text → Text → List Capture → Prop) :
    Text → Text → Text → List Capture → Prop where
  | done (before after : Text) : FitsRounds fits before [] after []
  | more {before body rest after : Text} {captures others : List Capture}
      (first : fits before body (rest ++ after) captures)
      (further : FitsRounds fits (body.reverse ++ before) rest after others) :
      FitsRounds fits before (body ++ rest) after (others ++ captures)

/-- A pattern fits a stretch of text between what stands before and after it. The
captures are those of its groups, the latest first. -/
@[simp] def Fits : Pattern → Text → Text → Text → List Capture → Prop
  | empty, _, body, _, captures => body = [] ∧ captures = []
  | char accepts, _, body, _, captures => (∃ c, accepts c = true ∧ body = [c]) ∧ captures = []
  | run _ accepts, _, body, _, captures => (∀ c ∈ body, accepts c = true) ∧ captures = []
  | anchor condition, before, body, after, captures =>
    condition.holdsBetween before after = true ∧ body = [] ∧ captures = []
  | seq first second, before, body, after, captures =>
    ∃ front back earlier later, body = front ++ back ∧ captures = later ++ earlier ∧
      first.Fits before front (back ++ after) earlier ∧
      second.Fits (front.reverse ++ before) back after later
  | either first second, before, body, after, captures =>
    first.Fits before body after captures ∨ second.Fits before body after captures
  | rounds _ round, before, body, after, captures =>
    ∃ front back earlier later, body = front ++ back ∧ captures = later ++ earlier ∧
      round.Fits before front (back ++ after) earlier ∧
      FitsRounds round.Fits (front.reverse ++ before) back after later
  | group number inner, before, body, after, captures =>
    ∃ inside, captures = ⟨number, before, body⟩ :: inside ∧ inner.Fits before body after inside

end Pattern

/-- The captures of the groups a reading has closed, the latest first. -/
def Reading.captures (reading : Reading) : List Capture :=
  reading.groups.map fun (number, piece) => piece.capture number

/-- A reading has come further over a stretch of text that fits. -/
def Reading.Advances (fits : Text → Text → Text → List Capture → Prop) (reading next : Reading) :
    Prop :=
  ∃ body captures, reading.cursor.Spans next.cursor body ∧
    fits reading.cursor.before body next.cursor.after captures ∧
    next.captures = captures ++ reading.captures

namespace Pattern

/-- A run stops behind a stretch of characters of its class. The induction is on the text ahead. -/
theorem spans_of_mem_stops {accepts : Char → Bool} {cursor stop : Cursor} (ahead : Text)
    (sees : cursor.after = ahead) (reached : stop ∈ stops accepts cursor ahead) :
    ∃ body, cursor.Spans stop body ∧ ∀ c ∈ body, accepts c = true := by
  induction ahead generalizing cursor with
  | nil =>
    obtain rfl : stop = cursor := by simpa [stops] using reached
    exact ⟨[], .refl stop, by simp⟩
  | cons c rest ih =>
    simp only [stops, List.mem_cons] at reached
    rcases reached with rfl | reached
    · exact ⟨[], .refl stop, by simp⟩
    · split at reached
      · rename_i accepted
        obtain ⟨body, spans, all⟩ := ih rfl reached
        refine ⟨c :: body, (Cursor.Spans.pass sees).trans spans, ?_⟩
        simpa [accepted] using all
      · simp at reached

/-- Further rounds may stop where they start. -/
theorem mem_roundEnds_self (step : Reading → List Reading) (greedy : Bool) (bound : Nat)
    (reading : Reading) : reading ∈ roundEnds step greedy bound reading := by
  cases bound with
  | zero => simp [roundEnds]
  | succ bound => cases greedy <;> simp [roundEnds]

/-- Rounds take a first round and go on behind it. -/
theorem of_mem_ends_rounds {greedy : Bool} {round : Pattern} {reading next : Reading}
    (reached : next ∈ (rounds greedy round).ends reading) :
    ∃ middle ∈ round.ends reading,
      next ∈ roundEnds round.ends greedy middle.cursor.after.length middle := by
  obtain ⟨middle, first, rest⟩ := List.mem_flatMap.mp (by simpa only [ends] using reached)
  refine ⟨middle, first, ?_⟩
  split at rest
  · exact rest
  · obtain rfl := List.mem_singleton.mp rest
    exact mem_roundEnds_self _ _ _ _

/-- Further rounds stop at once, or take a step and go on with one round less to take. -/
theorem of_mem_roundEnds_succ {step : Reading → List Reading} {greedy : Bool} {bound : Nat}
    {reading next : Reading} (reached : next ∈ roundEnds step greedy (bound + 1) reading) :
    next = reading ∨ ∃ middle ∈ step reading, next ∈ roundEnds step greedy bound middle := by
  simp only [roundEnds] at reached
  split at reached
  · rcases List.mem_append.mp reached with further | stopped
    · obtain ⟨middle, stepped, rest⟩ := List.mem_flatMap.mp further
      split at rest
      · exact .inr ⟨middle, stepped, rest⟩
      · simp at rest
    · exact .inl (by simpa using stopped)
  · rcases List.mem_cons.mp reached with stopped | further
    · exact .inl stopped
    · obtain ⟨middle, stepped, rest⟩ := List.mem_flatMap.mp further
      split at rest
      · exact .inr ⟨middle, stepped, rest⟩
      · simp at rest

/-- Further rounds of a step advance over stretches that each fit what the step fits. The induction
is on the number of rounds. -/
theorem advances_of_mem_roundEnds {step : Reading → List Reading} {greedy : Bool}
    {fits : Text → Text → Text → List Capture → Prop}
    (sound : ∀ reading next, next ∈ step reading → reading.Advances fits next) (bound : Nat)
    (reading next : Reading) (reached : next ∈ roundEnds step greedy bound reading) :
    reading.Advances (FitsRounds fits) next := by
  have stay (reading : Reading) : reading.Advances (FitsRounds fits) reading :=
    ⟨[], [], .refl _, .done _ _, rfl⟩
  induction bound generalizing reading with
  | zero =>
    obtain rfl : next = reading := by simpa [roundEnds] using reached
    exact stay next
  | succ bound ih =>
    rcases of_mem_roundEnds_succ reached with rfl | ⟨middle, stepped, rest⟩
    · exact stay next
    · obtain ⟨front, earlier, spans, first, closed⟩ := sound reading middle stepped
      obtain ⟨back, later, spans', further, closed'⟩ := ih middle rest
      refine ⟨front ++ back, later ++ earlier, spans.trans spans', ?_, ?_⟩
      · rw [spans'.ahead] at first
        rw [spans.behind] at further
        exact .more first further
      · rw [closed', closed, List.append_assoc]

/-- Every end of a pattern lies behind a stretch of text that the pattern fits. The induction
follows the pattern. -/
theorem advances_of_mem_ends (pattern : Pattern) (reading next : Reading)
    (reached : next ∈ pattern.ends reading) : reading.Advances pattern.Fits next := by
  induction pattern generalizing reading next with
  | empty =>
    obtain rfl : next = reading := by simpa [ends] using reached
    exact ⟨[], [], .refl _, ⟨rfl, rfl⟩, rfl⟩
  | char accepts =>
    simp only [ends] at reached
    split at reached
    · simp at reached
    · rename_i c rest ahead
      split at reached
      · rename_i accepted
        obtain rfl := List.mem_singleton.mp reached
        exact ⟨[c], [], .pass ahead, ⟨⟨c, accepted, rfl⟩, rfl⟩, rfl⟩
      · simp at reached
  | run greedy accepts =>
    simp only [ends, List.mem_map] at reached
    obtain ⟨stop, among, rfl⟩ := reached
    have listed : stop ∈ stops accepts reading.cursor reading.cursor.after := by
      cases greedy <;> simpa using among
    obtain ⟨body, spans, all⟩ := spans_of_mem_stops _ rfl listed
    exact ⟨body, [], spans, ⟨all, rfl⟩, rfl⟩
  | anchor condition =>
    simp only [ends] at reached
    split at reached
    · rename_i holds
      obtain rfl := List.mem_singleton.mp reached
      rw [Anchor.holds_eq] at holds
      exact ⟨[], [], .refl _, ⟨holds, rfl, rfl⟩, rfl⟩
    · simp at reached
  | seq first second firstSound secondSound =>
    obtain ⟨middle, front, back⟩ := List.mem_flatMap.mp (by simpa only [ends] using reached)
    obtain ⟨body, earlier, spans, fits, closed⟩ := firstSound reading middle front
    obtain ⟨body', later, spans', fits', closed'⟩ := secondSound middle next back
    refine ⟨body ++ body', later ++ earlier, spans.trans spans',
      ⟨body, body', earlier, later, rfl, rfl, ?_, ?_⟩, ?_⟩
    · rwa [← spans'.ahead]
    · rwa [← spans.behind]
    · rw [closed', closed, List.append_assoc]
  | either first second firstSound secondSound =>
    rcases List.mem_append.mp (by simpa only [ends] using reached) with chosen | chosen
    · obtain ⟨body, captures, spans, fits, closed⟩ := firstSound reading next chosen
      exact ⟨body, captures, spans, .inl fits, closed⟩
    · obtain ⟨body, captures, spans, fits, closed⟩ := secondSound reading next chosen
      exact ⟨body, captures, spans, .inr fits, closed⟩
  | rounds greedy round roundSound =>
    obtain ⟨middle, first, rest⟩ := of_mem_ends_rounds reached
    obtain ⟨front, earlier, spans, fits, closed⟩ := roundSound reading middle first
    obtain ⟨back, later, spans', fits', closed'⟩ :=
      advances_of_mem_roundEnds roundSound _ middle next rest
    refine ⟨front ++ back, later ++ earlier, spans.trans spans',
      ⟨front, back, earlier, later, rfl, rfl, ?_, ?_⟩, ?_⟩
    · rwa [← spans'.ahead]
    · rwa [← spans.behind]
    · rw [closed', closed, List.append_assoc]
  | group number inner innerSound =>
    obtain ⟨last, inside, rfl⟩ := List.mem_map.mp (by simpa only [ends] using reached)
    obtain ⟨body, captures, spans, fits, closed⟩ := innerSound reading last inside
    refine ⟨body, ⟨number, reading.cursor.before, body⟩ :: captures, spans,
      ⟨captures, rfl, fits⟩, ?_⟩
    have whole : Piece.capture number ⟨reading.cursor, last.cursor⟩ =
        ⟨number, reading.cursor.before, body⟩ := by
      rw [Piece.capture, spans.piece_body]
    simpa only [Reading.captures, List.map_cons, whole, List.cons_append, List.cons.injEq,
      true_and] using closed

/-! ### What groups fit -/

/-- The patterns in the groups with a number. -/
def inners (number : Nat) : Pattern → List Pattern
  | empty | char _ | run _ _ | anchor _ => []
  | seq first second | either first second => first.inners number ++ second.inners number
  | rounds _ round => round.inners number
  | group key inner => (if key = number then [inner] else []) ++ inner.inners number

/-- What holds of the captures of every round holds of all. -/
theorem FitsRounds.captures {fits : Text → Text → Text → List Capture → Prop}
    {holds : Capture → Prop}
    (sound : ∀ before body after captures, fits before body after captures →
      ∀ capture ∈ captures, holds capture)
    {before body after : Text} {captures : List Capture}
    (rounds : FitsRounds fits before body after captures) :
    ∀ capture ∈ captures, holds capture := by
  induction rounds with
  | done => simp
  | more first further ih =>
    intro capture member
    rcases List.mem_append.mp member with later | now
    · exact ih capture later
    · exact sound _ _ _ _ first capture now

/-- What a group captures fits a pattern in a group of its number. The induction follows the
pattern; several groups may have one number. -/
theorem Fits.inside {pattern : Pattern} {before body after : Text} {captures : List Capture}
    (fits : pattern.Fits before body after captures) {capture : Capture}
    (member : capture ∈ captures) :
    ∃ inner ∈ pattern.inners capture.number, ∃ after captures,
      inner.Fits capture.before capture.body after captures := by
  induction pattern generalizing before body after captures capture with
  | empty =>
    obtain ⟨-, rfl⟩ := fits
    simp at member
  | char accepts =>
    obtain ⟨-, rfl⟩ := fits
    simp at member
  | run greedy accepts =>
    obtain ⟨-, rfl⟩ := fits
    simp at member
  | anchor condition =>
    obtain ⟨-, -, rfl⟩ := fits
    simp at member
  | seq first second firstInside secondInside =>
    obtain ⟨front, back, earlier, later, rfl, rfl, fits, fits'⟩ := fits
    rcases List.mem_append.mp member with member | member
    · obtain ⟨inner, listed, inside⟩ := secondInside fits' member
      exact ⟨inner, List.mem_append_right _ listed, inside⟩
    · obtain ⟨inner, listed, inside⟩ := firstInside fits member
      exact ⟨inner, List.mem_append_left _ listed, inside⟩
  | either first second firstInside secondInside =>
    rcases fits with fits | fits
    · obtain ⟨inner, listed, inside⟩ := firstInside fits member
      exact ⟨inner, List.mem_append_left _ listed, inside⟩
    · obtain ⟨inner, listed, inside⟩ := secondInside fits member
      exact ⟨inner, List.mem_append_right _ listed, inside⟩
  | rounds greedy round roundInside =>
    obtain ⟨front, back, earlier, later, rfl, rfl, fits, fits'⟩ := fits
    rcases List.mem_append.mp member with member | member
    · exact fits'.captures (fun _ _ _ _ fits _ member => roundInside fits member) _ member
    · exact roundInside fits member
  | group number inner innerInside =>
    obtain ⟨inside, rfl, fits⟩ := fits
    rcases List.mem_cons.mp member with rfl | member
    · exact ⟨inner, by simp [inners], after, inside, fits⟩
    · obtain ⟨further, listed, inside⟩ := innerInside fits member
      exact ⟨further, List.mem_append_right _ listed, inside⟩

/-! ### The forms of the patterns that rules are built from -/

section Forms

variable {before body after : Text} {captures : List Capture}

/-- Any number of rounds fit what they fit one after the other. -/
theorem fits_manyRounds {round : Pattern} : (manyRounds round).Fits before body after captures ↔
    FitsRounds round.Fits before body after captures := by
  constructor
  · rintro (⟨front, back, earlier, later, rfl, rfl, first, further⟩ | ⟨rfl, rfl⟩)
    · exact .more first further
    · exact .done before after
  · intro rounds
    cases rounds with
    | done => exact .inr ⟨rfl, rfl⟩
    | more first further => exact .inl ⟨_, _, _, _, rfl, rfl, first, further⟩

/-- A sequence fits a front of its first and a rest of the others. -/
theorem fits_sequence_cons {first : Pattern} {rest : List Pattern} :
    (sequence (first :: rest)).Fits before body after captures ↔
      ∃ front back earlier later, body = front ++ back ∧ captures = later ++ earlier ∧
        first.Fits before front (back ++ after) earlier ∧
        (sequence rest).Fits (front.reverse ++ before) back after later := by
  cases rest with
  | nil =>
    simp only [sequence, Fits]
    constructor
    · intro fits
      exact ⟨body, [], captures, [], by simp, by simp, by simpa using fits, rfl, rfl⟩
    · rintro ⟨front, back, earlier, later, rfl, rfl, fits, rfl, rfl⟩
      simpa using fits
  | cons second rest => rfl

/-- The empty sequence fits the empty stretch only. -/
@[simp] theorem fits_sequence_nil :
    (sequence []).Fits before body after captures ↔ body = [] ∧ captures = [] := Iff.rfl

/-- A word fits itself and nothing else, whatever is on the two sides. The induction is on the
word. -/
@[simp] theorem fits_word {text : Text} :
    (word text).Fits before body after captures ↔ body = text ∧ captures = [] := by
  induction text generalizing before body captures with
  | nil => rfl
  | cons c rest ih =>
    have unfolded :
        word (c :: rest) = sequence (char (· == c) :: rest.map fun c => char (· == c)) := rfl
    rw [unfolded, fits_sequence_cons]
    constructor
    · rintro ⟨front, back, earlier, later, rfl, rfl, ⟨⟨d, same, rfl⟩, rfl⟩, further⟩
      obtain ⟨rfl, rfl⟩ := ih.mp further
      obtain rfl : d = c := by simpa using same
      exact ⟨rfl, rfl⟩
    · rintro ⟨rfl, rfl⟩
      exact ⟨[c], rest, [], [], rfl, rfl, ⟨⟨c, by simp, rfl⟩, rfl⟩,
        ih.mpr ⟨rfl, rfl⟩⟩

/-- A literal text fits itself and nothing else. -/
@[simp] theorem fits_lit {text : String} :
    (lit text).Fits before body after captures ↔ body = text.toList ∧ captures = [] := fits_word

/-- A choice fits when one of its patterns does. -/
theorem fits_choice {patterns : List Pattern} :
    (choice patterns).Fits before body after captures ↔
      ∃ pattern ∈ patterns, pattern.Fits before body after captures := by
  induction patterns with
  | nil => simp [choice, never, Fits]
  | cons first rest ih =>
    cases rest with
    | nil => simp [choice]
    | cons second rest => simp [choice, Fits, ih]

/-- A choice of literal texts fits each of them and nothing else. -/
@[simp] theorem fits_litOf {texts : List String} :
    (litOf texts).Fits before body after captures ↔
      (∃ text ∈ texts, body = text.toList) ∧ captures = [] := by
  simp only [litOf, fits_choice, List.mem_map]
  constructor
  · rintro ⟨_, ⟨text, listed, rfl⟩, fits⟩
    obtain ⟨same, none⟩ := fits_lit.mp fits
    exact ⟨⟨text, listed, same⟩, none⟩
  · rintro ⟨⟨text, listed, same⟩, none⟩
    exact ⟨lit text, ⟨text, listed, rfl⟩, fits_lit.mpr ⟨same, none⟩⟩

/-- A run of any number fits the stretches of accepted characters. -/
@[simp] theorem fits_many {accepts : Char → Bool} :
    (many accepts).Fits before body after captures ↔
      (∀ c ∈ body, accepts c = true) ∧ captures = [] := Iff.rfl

/-- A run of at least one fits those that are not empty. -/
theorem fits_many1 {accepts : Char → Bool} :
    (many1 accepts).Fits before body after captures ↔
      body ≠ [] ∧ (∀ c ∈ body, accepts c = true) ∧ captures = [] := by
  constructor
  · rintro ⟨_, rest, _, _, rfl, rfl, ⟨⟨c, first, rfl⟩, rfl⟩, others, rfl⟩
    exact ⟨by simp, List.forall_mem_cons.mpr ⟨first, others⟩, rfl⟩
  · rintro ⟨present, all, rfl⟩
    obtain ⟨c, rest, rfl⟩ := List.exists_cons_of_ne_nil present
    obtain ⟨first, others⟩ := List.forall_mem_cons.mp all
    exact ⟨[c], rest, [], [], rfl, rfl, ⟨⟨c, first, rfl⟩, rfl⟩, others, rfl⟩

/-- An edge fits where exactly one neighbour is a word character. -/
theorem fits_edge :
    edge.Fits before body after captures ↔
      (before.head?.any isWordChar ≠ after.head?.any isWordChar) ∧ body = [] ∧ captures = [] := by
  simp [edge, Fits, Anchor.holdsBetween]

/-- A word with an edge behind it fits itself at such an edge. -/
theorem fits_word_edge {text : Text} :
    (sequence [word text, edge]).Fits before body after captures ↔
      ((text.reverse ++ before).head?.any isWordChar ≠ after.head?.any isWordChar) ∧
        body = text ∧ captures = [] := by
  rw [fits_sequence_cons]
  constructor
  · rintro ⟨_, _, _, _, rfl, rfl, here, further⟩
    obtain ⟨rfl, rfl⟩ := fits_word.mp here
    obtain ⟨edged, rfl, rfl⟩ := fits_edge.mp further
    exact ⟨edged, by simp, rfl⟩
  · rintro ⟨edged, rfl, rfl⟩
    exact ⟨body, [], [], [], by simp, rfl, fits_word.mpr ⟨rfl, rfl⟩,
      fits_edge.mpr ⟨edged, rfl, rfl⟩⟩

/-- At the end of a line only a newline can follow. -/
@[simp] theorem fits_lineEnd :
    (anchor .lineEnd).Fits before body after captures ↔
      (∀ c ∈ after.head?, c = '\n') ∧ body = [] ∧ captures = [] := by
  cases after <;> simp [Fits, Anchor.holdsBetween]

end Forms

/-! ### Taking a sequence apart from the front -/

namespace Fits

variable {rest : List Pattern} {before body after : Text} {captures : List Capture}

/-- What fits a sequence behind a word starts with that word. -/
theorem pass_word {text : Text}
    (fits : (sequence (word text :: rest)).Fits before body after captures) :
    ∃ back, body = text ++ back ∧
      (sequence rest).Fits (text.reverse ++ before) back after captures := by
  obtain ⟨front, back, earlier, later, rfl, rfl, first, further⟩ := fits_sequence_cons.mp fits
  obtain ⟨rfl, rfl⟩ := fits_word.mp first
  exact ⟨back, rfl, by rwa [List.append_nil]⟩

/-- What fits a sequence behind a literal starts with it. -/
theorem pass_lit {text : String}
    (fits : (sequence (lit text :: rest)).Fits before body after captures) :
    ∃ back, body = text.toList ++ back ∧
      (sequence rest).Fits (text.toList.reverse ++ before) back after captures :=
  fits.pass_word

/-- What fits behind a choice of literals starts with one of them. -/
theorem pass_litOf {texts : List String}
    (fits : (sequence (litOf texts :: rest)).Fits before body after captures) :
    ∃ text ∈ texts, ∃ back, body = text.toList ++ back ∧
      (sequence rest).Fits (text.toList.reverse ++ before) back after captures := by
  obtain ⟨front, back, earlier, later, rfl, rfl, first, further⟩ := fits_sequence_cons.mp fits
  obtain ⟨⟨text, listed, rfl⟩, rfl⟩ := fits_litOf.mp first
  exact ⟨text, listed, back, rfl, by rwa [List.append_nil]⟩

/-- What fits behind a run starts with accepted characters. -/
theorem pass_many {accepts : Char → Bool}
    (fits : (sequence (many accepts :: rest)).Fits before body after captures) :
    ∃ front back, body = front ++ back ∧ (∀ c ∈ front, accepts c = true) ∧
      (sequence rest).Fits (front.reverse ++ before) back after captures := by
  obtain ⟨front, back, earlier, later, rfl, rfl, first, further⟩ := fits_sequence_cons.mp fits
  obtain ⟨all, rfl⟩ := fits_many.mp first
  exact ⟨front, back, rfl, all, by rwa [List.append_nil]⟩

/-- The same for a run of at least one character. -/
theorem pass_many1 {accepts : Char → Bool}
    (fits : (sequence (many1 accepts :: rest)).Fits before body after captures) :
    ∃ c front back, body = c :: front ++ back ∧ (∀ d ∈ c :: front, accepts d = true) ∧
      (sequence rest).Fits ((c :: front).reverse ++ before) back after captures := by
  obtain ⟨front, back, earlier, later, rfl, rfl, first, further⟩ := fits_sequence_cons.mp fits
  obtain ⟨_, more, _, _, rfl, rfl, ⟨⟨c, accepted, rfl⟩, rfl⟩, all, rfl⟩ := first
  exact ⟨c, more, back, by simp, by simpa [accepted] using all, by simpa using further⟩

/-- What fits a sequence behind an edge is at such an edge. -/
theorem pass_edge (fits : (sequence (edge :: rest)).Fits before body after captures) :
    before.head?.any isWordChar ≠ (body ++ after).head?.any isWordChar ∧
      (sequence rest).Fits before body after captures := by
  obtain ⟨front, back, earlier, later, rfl, rfl, first, further⟩ := fits_sequence_cons.mp fits
  obtain ⟨differs, rfl, rfl⟩ := fits_edge.mp first
  exact ⟨differs, by simpa using further⟩

/-- What fits a last line end is empty, in front of a newline or none. -/
theorem pass_lineEnd (fits : (sequence [anchor .lineEnd]).Fits before body after captures) :
    (∀ c ∈ after.head?, c = '\n') ∧ body = [] ∧ captures = [] :=
  fits_lineEnd.mp fits

/-- What fits behind a group has a front that the group fits. -/
theorem pass_group {number : Nat} {inner : Pattern}
    (fits : (sequence (group number inner :: rest)).Fits before body after captures) :
    ∃ front back inside later, body = front ++ back ∧
      captures = later ++ ⟨number, before, front⟩ :: inside ∧
      inner.Fits before front (back ++ after) inside ∧
      (sequence rest).Fits (front.reverse ++ before) back after later := by
  obtain ⟨front, back, earlier, later, rfl, rfl, first, further⟩ := fits_sequence_cons.mp fits
  obtain ⟨inside, rfl, inner⟩ := first
  exact ⟨front, back, inside, later, rfl, rfl, inner, further⟩

/-- A sequence fits a front of its first pattern, without groups, and a rest of the others. -/
theorem cons {first : Pattern} {front back : Text}
    (here : first.Fits before front (back ++ after) [])
    (further : (sequence rest).Fits (front.reverse ++ before) back after captures) :
    (sequence (first :: rest)).Fits before (front ++ back) after captures :=
  fits_sequence_cons.mpr ⟨front, back, [], captures, rfl, by simp, here, further⟩

/-- At an edge of a word, what fits does so with the edge in front. -/
theorem cons_edge (edged : before.head?.any isWordChar ≠ (body ++ after).head?.any isWordChar)
    (further : (sequence rest).Fits before body after captures) :
    (sequence (edge :: rest)).Fits before body after captures :=
  fits_sequence_cons.mpr ⟨[], body, [], captures, rfl, by simp, fits_edge.mpr ⟨edged, rfl, rfl⟩,
    further⟩

end Fits

end Pattern

/-! ### Searching a text -/

/-- A place of a text lies behind a front of it. -/
theorem Cursor.spans_of_mem_onward {cursor place : Cursor} (ahead : Text)
    (sees : cursor.after = ahead) (listed : place ∈ cursor.onward ahead) :
    ∃ body, cursor.Spans place body := by
  induction ahead generalizing cursor with
  | nil =>
    obtain rfl : place = cursor := by simpa [onward] using listed
    exact ⟨[], .refl place⟩
  | cons c rest ih =>
    simp only [onward, List.mem_cons] at listed
    rcases listed with rfl | listed
    · exact ⟨[], .refl place⟩
    · obtain ⟨body, spans⟩ := ih rfl listed
      exact ⟨[c] ++ body, (Spans.pass sees).trans spans⟩

/-- Each place that a search tries is reached from the start. -/
theorem Cursor.spans_of_mem_all {text : Text} {place : Cursor} (listed : place ∈ all text) :
    ∃ left, (start text).Spans place left :=
  spans_of_mem_onward text rfl listed

/-- The places of a text are listed with increasing offsets, none of them in front of the cursor
that they are listed from. -/
theorem Cursor.pairwise_onward (cursor : Cursor) (ahead : Text) :
    (cursor.onward ahead).Pairwise (fun place later => place.offset < later.offset) ∧
      ∀ place ∈ cursor.onward ahead, cursor.offset ≤ place.offset := by
  induction ahead generalizing cursor with
  | nil => simp [onward]
  | cons c rest ih =>
    have step : cursor.offset < (cursor.pass c rest).offset :=
      Nat.lt_add_of_pos_right c.utf8Size_pos
    obtain ⟨increasing, above⟩ := ih (cursor.pass c rest)
    constructor
    · refine List.pairwise_cons.mpr ⟨?_, increasing⟩
      intro place listed
      exact Nat.lt_of_lt_of_le step (above place listed)
    · intro place listed
      rcases List.mem_cons.mp listed with rfl | listed
      · exact Nat.le_refl _
      · exact Nat.le_trans (Nat.le_of_lt step) (above place listed)

/-- Where a match stands in a text and what its pattern says about it. -/
structure Match.Occurs (found : Match) (pattern : Pattern) (text left right : Text)
    (captures : List Capture) : Prop where
  whole : text = left ++ found.body ++ right
  before : found.whole.start.before = left.reverse
  spans : found.whole.start.Spans found.whole.stop found.body
  after : found.whole.stop.after = right
  fits : pattern.Fits left.reverse found.body right captures
  group : ∀ number, 0 < number → number ≤ pattern.groupCount →
    (found.group? number).map (Piece.capture number) =
      captures.find? fun capture => capture.number == number

namespace Match.Occurs

variable {found : Match} {pattern : Pattern} {text left right : Text} {captures : List Capture}

/-- An occurrence starts where the text to its left ends. -/
theorem start_eq (occurs : found.Occurs pattern text left right captures) :
    found.start = left.width := by
  rw [Match.start, Cursor.placed, occurs.before, Text.width_reverse]

/-- An occurrence stops behind its left text and what it matched. -/
theorem stop_eq (occurs : found.Occurs pattern text left right captures) :
    found.stop = left.width + found.body.width := by
  rw [Match.stop, occurs.spans.offset_eq, ← occurs.start_eq, Match.start]

/-- An occurrence is as wide as what was matched. -/
theorem width_eq (occurs : found.Occurs pattern text left right captures) :
    found.whole.width = found.body.width :=
  occurs.spans.piece_width

end Match.Occurs

namespace Pattern

/-- The first capture with a number is that of the piece kept last under it, because both lists have
the latest first. -/
theorem map_lookup_groups (groups : List (Nat × Piece)) (number : Nat) :
    (groups.lookup number).map (Piece.capture number) =
      (groups.map fun (key, piece) => piece.capture key).find? fun capture =>
        capture.number == number := by
  induction groups with
  | nil => rfl
  | cons entry rest ih =>
    obtain ⟨key, piece⟩ := entry
    by_cases same : number = key
    · subst same
      simp [List.lookup_cons_self, Piece.capture]
    · have different : (number == key) = false := by simpa using same
      have different' : (key == number) = false := by simpa using Ne.symm same
      simp only [List.lookup_cons, different, List.map_cons, List.find?_cons, Piece.capture,
        different']
      simpa [Piece.capture] using ih

/-- What a pattern matches at a place of a text occurs there, with the text on its two sides and the
captures of its groups. -/
theorem occurs_of_matchAt? {pattern : Pattern} {text : Text} {cursor : Cursor} {found : Match}
    (listed : cursor ∈ Cursor.all text) (matched : pattern.matchAt? cursor = some found) :
    found.whole.start = cursor ∧
      ∃ left right captures, found.Occurs pattern text left right captures := by
  obtain ⟨reading, first, rfl⟩ := Option.map_eq_some_iff.mp matched
  obtain ⟨body, captures, spans, fits, closed⟩ :=
    advances_of_mem_ends pattern ⟨cursor, []⟩ reading (List.mem_of_mem_head? first)
  obtain ⟨left, behind⟩ := Cursor.spans_of_mem_all listed
  have before : cursor.before = left.reverse := by simpa [Cursor.start] using behind.behind
  refine ⟨rfl, left, reading.cursor.after, captures, ?_⟩
  have taken : Match.body ⟨⟨cursor, reading.cursor⟩,
      (List.range pattern.groupCount).map fun index =>
        reading.groups.lookup (index + 1)⟩ = body := spans.piece_body
  refine ⟨?_, before, by rwa [taken], rfl, by rwa [taken, ← before], ?_⟩
  · rw [taken, List.append_assoc, ← spans.ahead]
    exact behind.ahead
  · intro number positive counted
    obtain ⟨index, rfl⟩ := Nat.exists_eq_add_of_lt positive
    have inRange : index < pattern.groupCount := by omega
    have kept : reading.captures = captures := by simpa [Reading.captures] using closed
    rw [← kept, Reading.captures, ← map_lookup_groups]
    simp [Match.group?, inRange]

/-- Where a pattern does not match the search goes on. -/
theorem matchesFrom_of_none {pattern : Pattern} {cursor : Cursor}
    (none : pattern.matchAt? cursor = none) (last : Option Nat) (rest : List Cursor) :
    pattern.matchesFrom last (cursor :: rest) = pattern.matchesFrom last rest := by
  simp [matchesFrom, none]

/-- A place in front of where the last match stopped is passed over. -/
theorem matchesFrom_of_lt {pattern : Pattern} {cursor : Cursor} {last : Option Nat}
    (before : (last.any fun stop => cursor.offset < stop) = true) (rest : List Cursor) :
    pattern.matchesFrom last (cursor :: rest) = pattern.matchesFrom last rest := by
  rw [matchesFrom, if_pos before]

/-- An empty match does not count where the last one stopped. -/
theorem matchesFrom_of_stop {pattern : Pattern} {cursor : Cursor} {found : Match}
    (matched : pattern.matchAt? cursor = some found) (empty : found.stop = cursor.offset)
    (rest : List Cursor) :
    pattern.matchesFrom (some cursor.offset) (cursor :: rest) =
      pattern.matchesFrom (some cursor.offset) rest := by
  simp [matchesFrom, matched, empty]

/-- Elsewhere a match counts. -/
theorem matchesFrom_of_some {pattern : Pattern} {cursor : Cursor} {found : Match}
    {last : Option Nat} (matched : pattern.matchAt? cursor = some found)
    (behind : (last.any fun stop => cursor.offset < stop) = false)
    (counts : ¬(found.stop = cursor.offset ∧ last = some cursor.offset)) (rest : List Cursor) :
    pattern.matchesFrom last (cursor :: rest) =
      found :: pattern.matchesFrom (some found.stop) rest := by
  rw [matchesFrom, behind, if_neg Bool.false_ne_true, matched]
  simp only
  rw [if_neg counts]

/-- What a search gives is what the pattern matches at one of the places. The induction is on the
places. -/
theorem matchAt?_of_mem_matchesFrom {pattern : Pattern} {last : Option Nat} {cursors : List Cursor}
    {found : Match} (member : found ∈ pattern.matchesFrom last cursors) :
    ∃ cursor ∈ cursors, pattern.matchAt? cursor = some found := by
  induction cursors generalizing last with
  | nil => simp [matchesFrom] at member
  | cons cursor rest ih =>
    have later (last : Option Nat) (member : found ∈ pattern.matchesFrom last rest) :
        ∃ place ∈ cursor :: rest, pattern.matchAt? place = some found := by
      obtain ⟨place, listed, matched⟩ := ih member
      exact ⟨place, .tail _ listed, matched⟩
    simp only [matchesFrom] at member
    split at member
    · exact later _ member
    · split at member
      · exact later _ member
      · rename_i matched
        split at member
        · exact later _ member
        · rcases List.mem_cons.mp member with rfl | member
          · exact ⟨cursor, .head _, matched⟩
          · exact later _ member

/-- Every match that a search gives occurs in the text. -/
theorem occurs_of_mem_allMatches {pattern : Pattern} {text : Text} {found : Match}
    (member : found ∈ pattern.allMatches text) :
    ∃ left right captures, found.Occurs pattern text left right captures := by
  obtain ⟨cursor, listed, matched⟩ := matchAt?_of_mem_matchesFrom member
  exact (occurs_of_matchAt? listed matched).2

/-- A group of a match fits a pattern in a group of its number. -/
theorem fits_of_group? {pattern : Pattern} {text : Text} {found : Match} {number : Nat}
    {piece : Piece} (member : found ∈ pattern.allMatches text) (positive : 0 < number)
    (counted : number ≤ pattern.groupCount) (group : found.group? number = some piece) :
    ∃ inner ∈ pattern.inners number, ∃ before after captures,
      inner.Fits before piece.body after captures := by
  obtain ⟨left, right, captures, occurs⟩ := occurs_of_mem_allMatches member
  have first := occurs.group number positive counted
  rw [group, Option.map_some] at first
  obtain ⟨inner, listed, fits⟩ := occurs.fits.inside (List.mem_of_find?_eq_some first.symm)
  exact ⟨inner, listed, piece.start.before, fits⟩

/-- Each place is searched at most once, so that the starts of the matches are among the places, in
their order. -/
theorem sublist_matchesFrom (pattern : Pattern) (last : Option Nat) (cursors : List Cursor) :
    ((pattern.matchesFrom last cursors).map Match.start).Sublist (cursors.map Cursor.offset) := by
  induction cursors generalizing last with
  | nil => simp [matchesFrom]
  | cons cursor rest ih =>
    simp only [matchesFrom]
    split
    · exact (ih last).cons _
    · split
      · exact (ih last).cons _
      · rename_i found matched
        split
        · exact (ih last).cons _
        · have start : found.start = cursor.offset := by
            obtain ⟨reading, -, rfl⟩ := Option.map_eq_some_iff.mp matched
            rfl
          rw [List.map_cons, List.map_cons, start]
          exact (ih _).cons_cons _

/-- The matches of a search start further and further on. -/
theorem pairwise_allMatches (pattern : Pattern) (text : Text) :
    (pattern.allMatches text).Pairwise fun found later => found.start < later.start := by
  have places : ((Cursor.all text).map Cursor.offset).Pairwise (· < ·) :=
    List.pairwise_map.mpr (Cursor.pairwise_onward (Cursor.start text) text).1
  exact List.pairwise_map.mp (places.sublist (pattern.sublist_matchesFrom none (Cursor.all text)))

/-- The matches of a search are told apart by where they start. -/
theorem eq_of_start_eq {pattern : Pattern} {text : Text} {found other : Match}
    (member : found ∈ pattern.allMatches text) (member' : other ∈ pattern.allMatches text)
    (same : found.start = other.start) : found = other := by
  have increasing := List.pairwise_iff_getElem.mp (pattern.pairwise_allMatches text)
  obtain ⟨index, inside, rfl⟩ := List.getElem_of_mem member
  obtain ⟨index', inside', rfl⟩ := List.getElem_of_mem member'
  rcases Nat.lt_trichotomy index index' with ahead | rfl | behind
  · have apart := increasing index index' inside inside' ahead
    omega
  · rfl
  · have apart := increasing index' index inside' inside behind
    omega

end Pattern

end ScriptCheck
