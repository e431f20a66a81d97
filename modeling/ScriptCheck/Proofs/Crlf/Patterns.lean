import Mathlib.Data.List.Basic
import ScriptCheck.Proofs.Matching
import ScriptCheck.Proofs.Crlf.Text

/-!
# Patterns and carriage returns

A place of a text is also a place of the CRLF text. That text has further places,
between a carriage return and its newline. The ends that a pattern has at the same place
of the two texts are compared here, pattern by pattern.

A pattern commutes with carriage returns if its ends in the CRLF text are its ends in the text.
A repetition does not, since it may stop between a carriage return and its newline. It
settles: there are no further ends than those. What follows it shuns a newline in all
patterns of interest, so that such an end leads nowhere and the two commute together. The
patterns that run to the end of a line are apart. They stop behind the carriage return,
and what is compared is only the end they prefer.
-/

namespace ScriptCheck

namespace Cursor

/-- Places that see the same on both sides are the same. -/
theorem eq_of_sides {place other : Cursor} (before : place.before = other.before)
    (after : place.after = other.after) : place = other := by
  obtain ⟨before₁, after₁, offset₁, placed₁⟩ := place
  obtain ⟨before₂, after₂, offset₂, placed₂⟩ := other
  subst before after placed₁ placed₂
  rfl

/-- The same place in the CRLF text; in front of a newline, the place in front of its
carriage return. -/
def crlf (cursor : Cursor) : Cursor where
  before := (Text.crlf cursor.before.reverse).reverse
  after := Text.crlf cursor.after
  offset := Text.width (Text.crlf cursor.before.reverse).reverse
  placed := rfl

/-- What is ahead of a CRLF place is the CRLF form of what was. -/
@[simp] theorem after_crlf (cursor : Cursor) :
    cursor.crlf.after = Text.crlf cursor.after := rfl

/-- What is behind a CRLF place is the CRLF form of what was. -/
theorem before_crlf (cursor : Cursor) :
    cursor.crlf.before = (Text.crlf cursor.before.reverse).reverse := rfl

/-- Whether a newline follows. -/
def atNewline (cursor : Cursor) : Bool := cursor.after.head? == some '\n'

variable {cursor : Cursor}

/-- A newline follows a place if it is the first character ahead. -/
theorem atNewline_iff : cursor.atNewline = true ↔ ∃ rest, cursor.after = '\n' :: rest := by
  rw [atNewline, beq_iff_eq, List.head?_eq_some_iff]

/-- Behind a passed character, a newline follows if the rest has it. -/
@[simp] theorem atNewline_pass (cursor : Cursor) (c : Char) (rest : Text) :
    (cursor.pass c rest).atNewline = (rest.head? == some '\n') := rfl

/-- No place of the text is between a carriage return and a newline. -/
@[simp] theorem atNewline_crlf (cursor : Cursor) : cursor.crlf.atNewline = false := by
  rw [atNewline, after_crlf, Text.head?_crlf]
  cases cursor.after.head? with
  | none => rfl
  | some c =>
    by_cases newline : c = '\n'
    · subst newline
      rfl
    · simp [newline]

/-- Another character than a newline is passed alike. -/
theorem crlf_pass (cursor : Cursor) {c : Char} (other : c ≠ '\n') (rest : Text) :
    (cursor.pass c rest).crlf = cursor.crlf.pass c rest.crlf := by
  refine eq_of_sides ?_ rfl
  show (Text.crlf (c :: cursor.before).reverse).reverse = c :: cursor.crlf.before
  simp [crlf, Text.crlf_cons other]

/-- The same place in the CRLF text; in front of a newline, the place between its
carriage return and it. -/
def closed (cursor : Cursor) : Cursor :=
  if cursor.atNewline then
    cursor.crlf.pass '\r' cursor.crlf.after.tail
  else
    cursor.crlf

/-- In front of a newline, the closed place is past the return. -/
theorem closed_of_newline {rest : Text} (ahead : cursor.after = '\n' :: rest) :
    cursor.closed = cursor.crlf.pass '\r' ('\n' :: rest.crlf) := by
  have after : cursor.crlf.after = '\r' :: '\n' :: rest.crlf := by
    simp [crlf, ahead]
  rw [closed, if_pos (atNewline_iff.mpr ⟨rest, ahead⟩), after]
  rfl

/-- Where no newline follows, the closed place is the CRLF form. -/
theorem closed_of_not (other : cursor.atNewline = false) : cursor.closed = cursor.crlf := by
  rw [closed, other, if_neg Bool.false_ne_true]

/-- A newline is passed as a carriage return and a newline. -/
theorem crlf_pass_newline {rest : Text} (ahead : cursor.after = '\n' :: rest) :
    (cursor.pass '\n' rest).crlf = cursor.closed.pass '\n' rest.crlf := by
  refine eq_of_sides ?_ rfl
  rw [closed_of_newline ahead]
  show (Text.crlf ('\n' :: cursor.before).reverse).reverse = _
  simp [crlf, pass]

end Cursor

/-- A piece as a piece of the CRLF text. -/
def Piece.crlf (piece : Piece) : Piece := ⟨piece.start.crlf, piece.stop.crlf⟩

/-- A reading as a reading of the CRLF text. -/
def Reading.crlf (reading : Reading) : Reading where
  cursor := reading.cursor.crlf
  groups := reading.groups.map fun (number, piece) => (number, piece.crlf)

/-- A reading's place in the CRLF text is its CRLF form. -/
@[simp] theorem Reading.cursor_crlf (reading : Reading) :
    reading.crlf.cursor = reading.cursor.crlf := rfl

/-- A group of the CRLF text is looked up as in the text. -/
theorem Piece.lookup_map_crlf (groups : List (Nat × Piece)) (number : Nat) :
    (groups.map fun (key, piece) => (key, Piece.crlf piece)).lookup number =
      (groups.lookup number).map Piece.crlf := by
  induction groups with
  | nil => rfl
  | cons entry rest ih =>
    obtain ⟨key, piece⟩ := entry
    rw [List.map_cons, List.lookup_cons, List.lookup_cons, ih]
    cases number == key <;> rfl

namespace Pattern

/-- The ends of the pattern in the CRLF text are its ends in the text. -/
def Commutes (pattern : Pattern) : Prop :=
  ∀ reading, pattern.ends reading.crlf = (pattern.ends reading).map Reading.crlf

/-- Apart from places between a carriage return and its newline, the ends of the pattern in
the CRLF text are its ends in the text. -/
def Settles (pattern : Pattern) : Prop :=
  ∀ reading, (pattern.ends reading.crlf).filter (fun next => !next.cursor.atNewline) =
    (pattern.ends reading).map Reading.crlf

/-- The pattern does not match in front of a newline. -/
def Shuns (pattern : Pattern) : Prop :=
  ∀ reading : Reading, reading.cursor.atNewline = true → pattern.ends reading = []

/-! ### Ends of lists of patterns -/

/-- A sequence goes on from each end of its first pattern. -/
theorem ends_sequence_cons (first : Pattern) (rest : List Pattern) (reading : Reading) :
    (sequence (first :: rest)).ends reading =
      (first.ends reading).flatMap (sequence rest).ends := by
  cases rest with
  | nil =>
    have alone : (sequence []).ends = fun reading => [reading] := by
      funext reading
      simp [sequence, ends]
    rw [alone, List.flatMap_singleton']
    rfl
  | cons second rest => simp [sequence, ends]

/-- A choice has the ends of its first pattern, then the others. -/
theorem ends_choice_cons (first : Pattern) (rest : List Pattern) (reading : Reading) :
    (choice (first :: rest)).ends reading = first.ends reading ++ (choice rest).ends reading := by
  cases rest with
  | nil =>
    have nothing : (choice []).ends reading = [] := by
      simp only [choice, never, ends]
      split <;> rfl
    rw [nothing, List.append_nil]
    rfl
  | cons second rest => simp [choice, ends]

/-! ### Shunning a newline -/

variable {accepts : Char → Bool} {inner second : Pattern} {patterns : List Pattern}

/-- A character of a class without the newline shuns newlines. -/
theorem shuns_char (newline : accepts '\n' = false) : (char accepts).Shuns := by
  intro reading here
  obtain ⟨rest, ahead⟩ := Cursor.atNewline_iff.mp here
  simp [ends, ahead, newline]

/-- A group shuns newlines if its pattern does. -/
theorem shuns_group (number : Nat) (shuns : inner.Shuns) : (group number inner).Shuns := by
  intro reading here
  simp [ends, shuns reading here]

/-- A choice between patterns that shun newlines does too. -/
theorem shuns_either {first : Pattern} (shuns : first.Shuns) (shuns' : second.Shuns) :
    (either first second).Shuns := by
  intro reading here
  simp [ends, shuns reading here, shuns' reading here]

/-- A sequence shuns newlines if its first pattern does. -/
theorem shuns_sequence {first : Pattern} (shuns : first.Shuns) (rest : List Pattern) :
    (sequence (first :: rest)).Shuns := by
  intro reading here
  rw [ends_sequence_cons, shuns reading here, List.flatMap_nil]

/-- A condition in front of what shuns newlines shuns them too. -/
theorem shuns_sequence_anchor (condition : Anchor) {rest : List Pattern}
    (shuns : (sequence rest).Shuns) : (sequence (anchor condition :: rest)).Shuns := by
  intro reading here
  rw [ends_sequence_cons, ends]
  split
  · simp [shuns reading here]
  · rfl

/-- A run that does not go on over a newline leaves the reading in front of it. -/
theorem shuns_sequence_run (greedy : Bool) (newline : accepts '\n' = false) {rest : List Pattern}
    (shuns : (sequence rest).Shuns) : (sequence (run greedy accepts :: rest)).Shuns := by
  intro reading here
  obtain ⟨rest', ahead⟩ := Cursor.atNewline_iff.mp here
  have only : (run greedy accepts).ends reading = [reading] := by
    cases greedy <;> simp [ends, ahead, stops, newline]
  rw [ends_sequence_cons, only, List.flatMap_cons, shuns reading here, List.flatMap_nil,
    List.append_nil]

/-- A choice of patterns that all shun newlines does too. -/
theorem shuns_choice (each : ∀ pattern ∈ patterns, pattern.Shuns) : (choice patterns).Shuns := by
  induction patterns with
  | nil => exact shuns_char rfl
  | cons first rest ih =>
    intro reading here
    rw [ends_choice_cons, each first (by simp) reading here,
      ih (fun pattern listed => each pattern (by simp [listed])) reading here,
      List.append_nil]

/-- A word without newlines does not match in front of one. -/
theorem shuns_word {text : Text} (present : text ≠ []) (inLine : ∀ c ∈ text, c ≠ '\n') :
    (word text).Shuns := by
  obtain ⟨c, rest, rfl⟩ := List.exists_cons_of_ne_nil present
  have other : c ≠ '\n' := inLine c (by simp)
  exact shuns_sequence (shuns_char (by simpa using other.symm)) _

/-! ### Commuting -/

/-- The empty pattern commutes with carriage returns. -/
theorem commutes_empty : empty.Commutes := fun reading => by simp [ends]

/-- Where no newline follows, one character is read alike. -/
theorem ends_char_crlf {reading : Reading} {c : Char} {rest : Text}
    (ahead : reading.cursor.after = c :: rest) (other : c ≠ '\n') :
    (char accepts).ends reading.crlf = ((char accepts).ends reading).map Reading.crlf := by
  have pass := reading.cursor.crlf_pass other rest
  cases accepted : accepts c <;>
    simp [ends, ahead, Text.crlf_cons other, accepted, Reading.crlf, pass]

/-- A character of a class without line ends commutes. -/
theorem commutes_char (cr : accepts '\r' = false) (newline : accepts '\n' = false) :
    (char accepts).Commutes := by
  intro reading
  cases ahead : reading.cursor.after with
  | nil => simp [ends, ahead]
  | cons c rest =>
    by_cases here : c = '\n'
    · subst here
      simp [ends, ahead, cr, newline]
    · exact ends_char_crlf ahead here

/-- A sequence of two patterns that commute commutes. -/
theorem commutes_seq {first : Pattern} (commutes : first.Commutes) (commutes' : second.Commutes) :
    (seq first second).Commutes := by
  intro reading
  simp only [ends, commutes reading, List.flatMap_map, List.map_flatMap, commutes' _]

/-- A choice between two patterns that commute commutes. -/
theorem commutes_either {first : Pattern} (commutes : first.Commutes)
    (commutes' : second.Commutes) : (either first second).Commutes := by
  intro reading
  simp only [ends, commutes reading, commutes' reading, List.map_append]

/-- A group commutes if its pattern does. -/
theorem commutes_group (number : Nat) (commutes : inner.Commutes) :
    (group number inner).Commutes := by
  intro reading
  simp only [ends, commutes reading, List.map_map, Function.comp_def]
  rfl

/-- A sequence commutes if each of its patterns does. -/
theorem commutes_sequence (each : ∀ pattern ∈ patterns, pattern.Commutes) :
    (sequence patterns).Commutes := by
  induction patterns with
  | nil => exact commutes_empty
  | cons first rest ih =>
    intro reading
    have commutes := each first (by simp)
    have commutes' := ih fun pattern listed => each pattern (by simp [listed])
    simp only [ends_sequence_cons, commutes reading, List.flatMap_map, List.map_flatMap,
      commutes' _]

/-- A choice commutes if each of its patterns does. -/
theorem commutes_choice (each : ∀ pattern ∈ patterns, pattern.Commutes) :
    (choice patterns).Commutes := by
  induction patterns with
  | nil => exact commutes_char rfl rfl
  | cons first rest ih =>
    intro reading
    have commutes := each first (by simp)
    have commutes' := ih fun pattern listed => each pattern (by simp [listed])
    simp only [ends_choice_cons, commutes reading, commutes' reading, List.map_append]

/-- A word without line ends commutes with carriage returns. -/
theorem commutes_word {text : Text} (inLine : ∀ c ∈ text, c ≠ '\r' ∧ c ≠ '\n') :
    (word text).Commutes := by
  refine commutes_sequence ?_
  intro pattern listed
  obtain ⟨c, among, rfl⟩ := List.mem_map.mp listed
  obtain ⟨notCr, notNewline⟩ := inLine c among
  exact commutes_char (by simpa using notCr.symm) (by simpa using notNewline.symm)

/-- A condition that holds at corresponding places commutes. -/
theorem commutes_anchor {condition : Anchor}
    (same : ∀ cursor : Cursor, condition.holds cursor.crlf = condition.holds cursor) :
    (anchor condition).Commutes := by
  intro reading
  cases holds : condition.holds reading.cursor <;> simp [ends, same, holds]

/-- A line end is no word character, so that edges of words are the same, be the neighbour a newline
or its carriage return. -/
theorem commutes_edge : edge.Commutes := by
  refine commutes_anchor fun cursor => ?_
  have before : cursor.crlf.before.head? = cursor.before.head? := by
    show (Text.crlf cursor.before.reverse).reverse.head? = _
    rw [List.head?_reverse, Text.getLast?_crlf, List.getLast?_reverse]
  have after : cursor.crlf.after.head?.any isWordChar = cursor.after.head?.any isWordChar := by
    rw [Cursor.after_crlf, Text.head?_crlf, Option.any_map]
    congr 1
    funext c
    by_cases newline : c = '\n'
    · subst newline
      decide
    · simp [newline]
  simp only [Anchor.holds, Anchor.atWordEdge, before, after]

/-- The end of the text is the end of the CRLF text. -/
theorem commutes_textEnd : (anchor .textEnd).Commutes := by
  refine commutes_anchor fun cursor => ?_
  have same : (Text.crlf cursor.after).isEmpty = cursor.after.isEmpty := by
    cases cursor.after with
    | nil => rfl
    | cons c rest => by_cases newline : c = '\n' <;> simp [Text.crlf, newline]
  exact same

/-- A run that stops at line ends has the same places to stop at. -/
theorem stops_crlf (cr : accepts '\r' = false) (newline : accepts '\n' = false) (cursor : Cursor)
    {ahead : Text} (sees : cursor.after = ahead) :
    stops accepts cursor.crlf ahead.crlf =
      (stops accepts cursor ahead).map Cursor.crlf := by
  induction ahead generalizing cursor with
  | nil => rfl
  | cons c rest ih =>
    by_cases here : c = '\n'
    · subst here
      simp [stops, cr, newline]
    · have further := ih (cursor.pass c rest) rfl
      rw [cursor.crlf_pass here rest] at further
      cases accepted : accepts c <;> simp [stops, Text.crlf_cons here, accepted, further]

/-- A run over characters without line ends commutes. -/
theorem commutes_run (greedy : Bool) (cr : accepts '\r' = false) (newline : accepts '\n' = false) :
    (run greedy accepts).Commutes := by
  intro reading
  have places := stops_crlf cr newline reading.cursor rfl
  cases greedy <;>
    simp [ends, places, ← List.map_reverse, Function.comp_def, Reading.crlf]

/-! ### Settling -/

/-- No CRLF form of a reading is in front of a newline. -/
@[simp] theorem filter_map_crlf (readings : List Reading) :
    (readings.map Reading.crlf).filter (fun next => !next.cursor.atNewline) =
      readings.map Reading.crlf := by
  refine List.filter_eq_self.mpr fun next listed => ?_
  obtain ⟨next, -, rfl⟩ := List.mem_map.mp listed
  simp

/-- A pattern that commutes with carriage returns settles. -/
theorem settles_of_commutes {pattern : Pattern} (commutes : pattern.Commutes) :
    pattern.Settles := by
  intro reading
  rw [commutes reading, filter_map_crlf]

/-- One character of a class without the newline. A carriage return that it takes leads to
the newline. -/
theorem settles_char (newline : accepts '\n' = false) : (char accepts).Settles := by
  intro reading
  cases ahead : reading.cursor.after with
  | nil => simp [ends, ahead]
  | cons c rest =>
    by_cases here : c = '\n'
    · subst here
      cases accepted : accepts '\r' <;> simp [ends, ahead, newline, accepted]
    · rw [ends_char_crlf ahead here, filter_map_crlf]

/-- A choice between patterns that settle does so too. -/
theorem settles_either {first : Pattern} (settles : first.Settles) (settles' : second.Settles) :
    (either first second).Settles := by
  intro reading
  simp only [ends, List.filter_append, settles reading, settles' reading, List.map_append]

/-- A group settles if its pattern does. -/
theorem settles_group (number : Nat) (settles : inner.Settles) : (group number inner).Settles := by
  intro reading
  have inside := settles reading
  simp only [ends, List.filter_map, List.map_map, Function.comp_def] at inside ⊢
  rw [inside, List.map_map]
  rfl

/-- Apart from places in front of newlines, a run stops at the same places, if with a newline it
takes a carriage return. -/
theorem filter_stops_crlf (both : accepts '\n' = true → accepts '\r' = true) (cursor : Cursor)
    {ahead : Text} (sees : cursor.after = ahead) :
    (stops accepts cursor.crlf ahead.crlf).filter (fun place => !place.atNewline) =
      (stops accepts cursor ahead).map Cursor.crlf := by
  induction ahead generalizing cursor with
  | nil => simp [stops]
  | cons c rest ih =>
    by_cases here : c = '\n'
    · subst here
      have further := ih (cursor.pass '\n' rest) rfl
      rw [Cursor.crlf_pass_newline sees, Cursor.closed_of_newline sees] at further
      cases accepted : accepts '\n' with
      | true => simp [stops, accepted, both accepted, further]
      | false => cases accepted' : accepts '\r' <;> simp [stops, accepted, accepted']
    · have further := ih (cursor.pass c rest) rfl
      rw [cursor.crlf_pass here rest] at further
      cases accepted : accepts c <;> simp [stops, Text.crlf_cons here, accepted, further]

/-- A run settles if its class has a carriage return or no newline. -/
theorem settles_run (greedy : Bool) (both : accepts '\n' = true → accepts '\r' = true) :
    (run greedy accepts).Settles := by
  intro reading
  have places := filter_stops_crlf both reading.cursor rfl
  cases greedy with
  | false => simp [ends, List.filter_map, Function.comp_def, places, Reading.crlf]
  | true =>
    simp [ends, List.filter_map, Function.comp_def, List.filter_reverse, places, Reading.crlf,
      ← List.map_reverse]

/-- Ends in front of a newline have no say if nothing follows. -/
theorem flatMap_of_shuns {α : Type} {next : Reading → List α} {readings : List Reading}
    (dead : ∀ reading ∈ readings, reading.cursor.atNewline = true → next reading = []) :
    readings.flatMap next =
      (readings.filter fun reading => !reading.cursor.atNewline).flatMap next := by
  induction readings with
  | nil => rfl
  | cons first rest ih =>
    have others := ih fun reading listed => dead reading (by simp [listed])
    cases newline : first.cursor.atNewline with
    | false => simp [newline, others]
    | true => simp [newline, others, dead first (by simp) newline]

/-- What settles commutes together with what shuns newlines. -/
theorem commutes_sequence_of_settles {first : Pattern} {rest : List Pattern}
    (settles : first.Settles) (commutes : (sequence rest).Commutes)
    (shuns : (sequence rest).Shuns) : (sequence (first :: rest)).Commutes := by
  intro reading
  rw [ends_sequence_cons, ends_sequence_cons, flatMap_of_shuns fun next _ => shuns next,
    settles reading]
  simp only [List.flatMap_map, List.map_flatMap, commutes _]

/-- A sequence commutes if its first pattern and its rest do. -/
theorem commutes_sequence_cons {first : Pattern} {rest : List Pattern} (commutes : first.Commutes)
    (commutes' : (sequence rest).Commutes) : (sequence (first :: rest)).Commutes := by
  intro reading
  simp only [ends_sequence_cons, commutes reading, List.flatMap_map, List.map_flatMap,
    commutes' _]

end Pattern

/-! ### Rounds -/

/-- A stretch between two places is between their CRLF forms. -/
theorem Cursor.Spans.crlf {start stop : Cursor} {body : Text} (spans : start.Spans stop body) :
    start.crlf.Spans stop.crlf body.crlf := by
  constructor
  · show Text.crlf start.after = _
    rw [spans.ahead, Text.crlf_append]
    rfl
  · show (Text.crlf stop.before.reverse).reverse = _
    rw [spans.behind, List.reverse_append, List.reverse_reverse, Text.crlf_append,
      List.reverse_append]
    rfl

/-- The CRLF form of a text is empty only if the text is. -/
theorem Text.crlf_eq_nil_iff {text : Text} : text.crlf = [] ↔ text = [] := by
  cases text with
  | nil => rfl
  | cons c rest => by_cases newline : c = '\n' <;> simp [crlf, newline]

/-- Behind a stretch that is not empty, less of the text is ahead. -/
theorem Cursor.Spans.length_after_lt {start stop : Cursor} {body : Text}
    (spans : start.Spans stop body) (present : body ≠ []) :
    stop.after.length < start.after.length := by
  have long : 0 < body.length := List.length_pos_iff.mpr present
  rw [spans.ahead, List.length_append]
  omega

namespace Pattern

/-- At the end of the text there is no further round. -/
theorem roundEnds_of_done {step : Reading → List Reading} {reading : Reading}
    (stuck : ∀ next ∈ step reading, ¬reading.cursor.offset < next.cursor.offset) (greedy : Bool)
    (bound : Nat) : roundEnds step greedy bound reading = [reading] := by
  cases bound with
  | zero => rfl
  | succ bound =>
    have nothing : ((step reading).flatMap fun next =>
        if reading.cursor.offset < next.cursor.offset then roundEnds step greedy bound next
        else []) = [] := by
      refine List.flatMap_eq_nil_iff.mpr fun next listed => ?_
      rw [if_neg (stuck next listed)]
    rw [roundEnds, nothing]
    cases greedy <;> rfl

/-- A pattern does not get beyond the end of the text. -/
theorem stuck_of_done (pattern : Pattern) {reading : Reading} (done : reading.cursor.after = []) :
    ∀ next ∈ pattern.ends reading, ¬reading.cursor.offset < next.cursor.offset := by
  intro next reached
  obtain ⟨body, -, spans, -⟩ := advances_of_mem_ends pattern reading next reached
  obtain ⟨rfl, -⟩ := List.append_eq_nil_iff.mp (spans.ahead.symm.trans done)
  simp [spans.offset_lt_iff]

variable {round : Pattern}

/-- Rounds of a pattern that settles and shuns a newline settle. The induction is on the number of
characters ahead; both bounds are large enough. -/
theorem filter_roundEnds_crlf (settles : round.Settles) (shuns : round.Shuns) (greedy : Bool)
    (length : Nat) (reading : Reading) (bound bound' : Nat)
    (short : reading.cursor.after.length ≤ length) (enough : reading.cursor.after.length ≤ bound)
    (enough' : reading.cursor.crlf.after.length ≤ bound') :
    (roundEnds round.ends greedy bound' reading.crlf).filter
        (fun next => !next.cursor.atNewline) =
      (roundEnds round.ends greedy bound reading).map Reading.crlf := by
  induction length using Nat.strongRecOn generalizing reading bound bound' with
  | ind length ih =>
    by_cases ended : reading.cursor.after = []
    · have ended' : reading.crlf.cursor.after = [] := by simp [ended]
      rw [roundEnds_of_done (stuck_of_done round ended),
        roundEnds_of_done (stuck_of_done round ended')]
      simp
    have present : 0 < reading.cursor.after.length := List.length_pos_iff.mpr ended
    have present' : 0 < reading.cursor.crlf.after.length :=
      List.length_pos_iff.mpr (mt Text.crlf_eq_nil_iff.mp ended)
    obtain ⟨bound, rfl⟩ : ∃ less, bound = less + 1 := ⟨bound - 1, by omega⟩
    obtain ⟨bound', rfl⟩ : ∃ less, bound' = less + 1 := ⟨bound' - 1, by omega⟩
    have each : ∀ next ∈ round.ends reading,
        (if reading.cursor.crlf.offset < next.cursor.crlf.offset then
            roundEnds round.ends greedy bound' next.crlf else []).filter
          (fun next => !next.cursor.atNewline) =
        (if reading.cursor.offset < next.cursor.offset then
            roundEnds round.ends greedy bound next else []).map Reading.crlf := by
      intro next reached
      obtain ⟨body, -, spans, -⟩ := advances_of_mem_ends round reading next reached
      simp only [spans.crlf.offset_lt_iff, spans.offset_lt_iff, ne_eq,
        Text.crlf_eq_nil_iff]
      split
      · rename_i moves
        have shorter := spans.length_after_lt moves
        have shorter' := spans.crlf.length_after_lt (mt Text.crlf_eq_nil_iff.mp moves)
        exact ih (length - 1) (by omega) next bound bound' (by omega) (by omega)
          (by omega)
      · rfl
    have further : ((round.ends reading.crlf).flatMap fun next =>
          if reading.cursor.crlf.offset < next.cursor.offset then
            roundEnds round.ends greedy bound' next else []).filter
          (fun next => !next.cursor.atNewline) =
        ((round.ends reading).flatMap fun next =>
          if reading.cursor.offset < next.cursor.offset then
            roundEnds round.ends greedy bound next else []).map Reading.crlf := by
      rw [List.filter_flatMap, flatMap_of_shuns, settles reading, List.flatMap_map,
        List.map_flatMap]
      · exact List.flatMap_congr each
      · intro next _ newline
        have only : roundEnds round.ends greedy bound' next = [next] :=
          roundEnds_of_done (by simp [shuns next newline]) greedy bound'
        rw [only]
        split <;> simp [newline]
    have stay : [reading.crlf].filter (fun next => !next.cursor.atNewline) =
        [reading].map Reading.crlf := by simp
    cases greedy with
    | true =>
      show (_ ++ [reading.crlf]).filter _ = (_ ++ [reading]).map Reading.crlf
      rw [List.filter_append, List.map_append, stay]
      exact congrArg (· ++ _) further
    | false =>
      show ([reading.crlf] ++ _).filter _ = ([reading] ++ _).map Reading.crlf
      rw [List.filter_append, List.map_append, stay]
      exact congrArg (_ ++ ·) further

/-- Rounds of a pattern that settles and shuns a newline settle: after the first round they go on as
further rounds do, or not at all. -/
theorem settles_rounds (greedy : Bool) (settles : round.Settles) (shuns : round.Shuns) :
    (rounds greedy round).Settles := by
  intro reading
  simp only [ends]
  rw [List.filter_flatMap, flatMap_of_shuns, settles reading, List.flatMap_map, List.map_flatMap]
  · refine List.flatMap_congr fun next reached => ?_
    obtain ⟨body, -, spans, -⟩ := advances_of_mem_ends round reading next reached
    have moves : reading.crlf.cursor.offset < next.crlf.cursor.offset ↔
        reading.cursor.offset < next.cursor.offset := by
      rw [spans.offset_lt_iff, ne_eq, ← Text.crlf_eq_nil_iff]
      exact spans.crlf.offset_lt_iff
    simp only [moves]
    split
    · exact filter_roundEnds_crlf settles shuns greedy _ next _ _ (Nat.le_refl _)
        (Nat.le_refl _) (Nat.le_refl _)
    · simp
  · intro next _ newline
    have only : roundEnds round.ends greedy next.cursor.after.length next = [next] :=
      roundEnds_of_done (by simp [shuns next newline]) greedy _
    rw [only]
    split <;> simp [newline]

/-- Rounds settle if one round does and shuns newlines. -/
theorem settles_manyRounds (settles : round.Settles) (shuns : round.Shuns) :
    (manyRounds round).Settles :=
  settles_either (settles_rounds true settles shuns) (settles_of_commutes commutes_empty)

end Pattern

/-! ### Running to the end of a line -/

/-- How readings of the two texts at the end of a line go together: in the CRLF text the
carriage return is passed, and the groups other than the given one have kept the same. -/
structure Reading.Closes (number : Nat) (reading reading' : Reading) : Prop where
  ended : ∀ c ∈ reading.cursor.after.head?, c = '\n'
  cursor : reading'.cursor = reading.cursor.closed
  groups : ∀ key, key ≠ number →
    reading'.groups.lookup key = (reading.groups.lookup key).map Piece.crlf

/-- Of related searches the one succeeds when the other does. -/
theorem rel_findSome? {α β γ : Type} {related : β → γ → Prop} {test : α → Option β}
    {test' : α → Option γ} {elements : List α}
    (each : ∀ element ∈ elements, Option.Rel related (test element) (test' element)) :
    Option.Rel related (elements.findSome? test) (elements.findSome? test') := by
  induction elements with
  | nil => exact .none
  | cons first rest ih =>
    have others := ih fun element listed => each element (.tail _ listed)
    have here := each first (.head _)
    rw [List.findSome?_cons, List.findSome?_cons]
    generalize test first = result at here
    generalize test' first = result' at here
    cases here with
    | none => exact others
    | some same => exact .some same

namespace Pattern

/-- The pattern prefers the end of a line in both texts, or has no end in both. -/
def Closes (number : Nat) (pattern : Pattern) : Prop :=
  ∀ reading, Option.Rel (Reading.Closes number) (pattern.ends reading).head?
    (pattern.ends reading.crlf).head?

variable {number : Nat} {first : Pattern} {rest : List Pattern}

/-- A sequence closes if its rest does, behind what commutes. -/
theorem closes_sequence (commutes : first.Commutes) (closes : (sequence rest).Closes number) :
    (sequence (first :: rest)).Closes number := by
  intro reading
  rw [ends_sequence_cons, ends_sequence_cons, List.head?_flatMap, List.head?_flatMap,
    commutes reading, List.findSome?_map]
  exact rel_findSome? fun next _ => closes next

/-- A sequence closes if its rest does, behind what settles. -/
theorem closes_sequence_of_settles (settles : first.Settles) (shuns : (sequence rest).Shuns)
    (closes : (sequence rest).Closes number) : (sequence (first :: rest)).Closes number := by
  intro reading
  have settled : (first.ends reading.crlf).flatMap (sequence rest).ends =
      ((first.ends reading).map Reading.crlf).flatMap (sequence rest).ends := by
    rw [flatMap_of_shuns fun next _ => shuns next, settles reading]
  rw [ends_sequence_cons, ends_sequence_cons, settled, List.head?_flatMap, List.head?_flatMap,
    List.findSome?_map]
  exact rel_findSome? fun next _ => closes next

/-- The end of the line, if there are only characters of a class in front of it. -/
def lineEnd? (accepts : Char → Bool) (cursor : Cursor) : Text → Option Cursor
  | [] => some cursor
  | c :: rest =>
    if accepts c then lineEnd? accepts (cursor.pass c rest) rest
    else if c = '\n' then some cursor
    else none

variable {accepts starts : Char → Bool} {ahead : Text}

/-- What is found as the end of a line is in front of a newline, or at the end of the text. -/
theorem lineEnd?_spec {cursor place : Cursor} (sees : cursor.after = ahead)
    (ended : lineEnd? accepts cursor ahead = some place) : ∀ c ∈ place.after.head?, c = '\n' := by
  induction ahead generalizing cursor with
  | nil =>
    obtain rfl := Option.some.inj ended
    simp [sees]
  | cons c rest ih =>
    rw [lineEnd?] at ended
    split at ended
    · exact ih rfl ended
    · split at ended
      · rename_i newline
        obtain rfl := Option.some.inj ended
        simp [sees, newline]
      · simp at ended

/-- In the CRLF text the carriage return comes before the end of the line, and belongs to the class
of characters in front of it. -/
theorem lineEnd?_crlf (cr : accepts '\r' = true) (newline : accepts '\n' = false) (cursor : Cursor)
    (sees : cursor.after = ahead) :
    lineEnd? accepts cursor.crlf ahead.crlf =
      (lineEnd? accepts cursor ahead).map Cursor.closed := by
  induction ahead generalizing cursor with
  | nil =>
    have last : cursor.atNewline = false := by simp [Cursor.atNewline, sees]
    simp [lineEnd?, Cursor.closed_of_not last]
  | cons c rest ih =>
    by_cases here : c = '\n'
    · subst here
      simp [lineEnd?, cr, newline, Cursor.closed_of_newline sees]
    · have further := ih (cursor.pass c rest) rfl
      rw [cursor.crlf_pass here rest] at further
      cases accepted : accepts c <;>
        simp [lineEnd?, Text.crlf_cons here, accepted, here, further]

/-- Among the places a run can stop at, only the last can be the end of the line. -/
theorem filter_stops_lineEnd (newline : accepts '\n' = false) (cursor : Cursor)
    (sees : cursor.after = ahead) :
    (stops accepts cursor ahead).filter (fun place => Anchor.lineEnd.holds place) =
      (lineEnd? accepts cursor ahead).toList := by
  induction ahead generalizing cursor with
  | nil => simp [stops, lineEnd?, Anchor.holds, sees]
  | cons c rest ih =>
    have further := ih (cursor.pass c rest) rfl
    have here : Anchor.lineEnd.holds cursor = (c == '\n') := by simp [Anchor.holds, sees]
    cases accepted : accepts c with
    | true =>
      have other : c ≠ '\n' := by
        rintro rfl
        simp [newline] at accepted
      simp [stops, lineEnd?, accepted, here, other, further]
    | false =>
      rw [stops, lineEnd?, accepted, if_neg Bool.false_ne_true, if_neg Bool.false_ne_true,
        List.filter_cons, here, List.filter_nil]
      by_cases same : c = '\n' <;> simp [same]

/-- A condition behind readings keeps those where it holds. -/
theorem flatMap_anchor (condition : Anchor) (readings : List Reading) :
    readings.flatMap (anchor condition).ends =
      readings.filter fun reading => condition.holds reading.cursor := by
  induction readings with
  | nil => rfl
  | cons first rest ih =>
    rw [List.flatMap_cons, ih, ends, List.filter_cons]
    cases condition.holds first.cursor <;> rfl

/-- The blank end of a line, or any other end of such characters. -/
theorem ends_many_lineEnd (newline : accepts '\n' = false) (reading : Reading) :
    (sequence [many accepts, anchor .lineEnd]).ends reading =
      ((lineEnd? accepts reading.cursor reading.cursor.after).map fun place =>
        { reading with cursor := place }).toList := by
  have ended := filter_stops_lineEnd newline reading.cursor rfl
  rw [ends_sequence_cons]
  show ((many accepts).ends reading).flatMap (anchor .lineEnd).ends = _
  rw [flatMap_anchor]
  simp only [many, ends, ↓reduceIte, List.filter_map, List.filter_reverse, Function.comp_def, ended]
  cases lineEnd? accepts reading.cursor reading.cursor.after <;> rfl

/-- A run to a line's end that takes carriage returns closes. -/
theorem closes_many_lineEnd (cr : accepts '\r' = true) (newline : accepts '\n' = false)
    (number : Nat) : (sequence [many accepts, anchor .lineEnd]).Closes number := by
  intro reading
  rw [ends_many_lineEnd newline, ends_many_lineEnd newline]
  simp only [Reading.cursor_crlf, Cursor.after_crlf,
    lineEnd?_crlf cr newline reading.cursor rfl]
  cases ended : lineEnd? accepts reading.cursor reading.cursor.after with
  | none => exact .none
  | some place =>
    exact .some ⟨lineEnd?_spec rfl ended, rfl, fun key _ => Piece.lookup_map_crlf _ key⟩

/-- A group around what stands in front of the end of the line. -/
theorem head?_group_lineEnd (number : Nat) (accepts : Char → Bool) (reading : Reading) :
    ((sequence [group number (many accepts), anchor .lineEnd]).ends reading).head? =
      ((sequence [many accepts, anchor .lineEnd]).ends reading).head?.map fun next =>
        { next with groups := (number, ⟨reading.cursor, next.cursor⟩) :: next.groups } := by
  have last : sequence [anchor .lineEnd] = anchor .lineEnd := rfl
  rw [ends_sequence_cons, ends_sequence_cons, last, flatMap_anchor, flatMap_anchor, ends,
    List.filter_map, List.head?_map]
  rfl

/-- A group around a run to the end of a line prefers the end of the line in both texts. Only this
group may differ, by the carriage return. -/
theorem closes_group_lineEnd (cr : accepts '\r' = true) (newline : accepts '\n' = false)
    (number : Nat) : (sequence [group number (many accepts), anchor .lineEnd]).Closes number := by
  intro reading
  rw [head?_group_lineEnd, head?_group_lineEnd]
  have inner := closes_many_lineEnd cr newline number reading
  generalize ((sequence [many accepts, anchor .lineEnd]).ends reading).head? = next at inner
  generalize ((sequence [many accepts, anchor .lineEnd]).ends reading.crlf).head? = next'
    at inner
  cases inner with
  | none => exact .none
  | some closes =>
    refine .some ⟨closes.ended, closes.cursor, fun key other => ?_⟩
    have different : (key == number) = false := by simpa using other
    rw [List.lookup_cons, List.lookup_cons, different]
    exact closes.groups key other

/-- At the end of a line there is nothing in front of it. -/
theorem ends_many_lineEnd_of_ended (newline : accepts '\n' = false) {reading : Reading}
    (ended : ∀ c ∈ reading.cursor.after.head?, c = '\n') :
    (sequence [many accepts, anchor .lineEnd]).ends reading = [reading] := by
  rw [ends_many_lineEnd newline]
  cases ahead : reading.cursor.after with
  | nil => rfl
  | cons c rest =>
    obtain rfl : c = '\n' := ended c (by simp [ahead])
    simp [lineEnd?, newline]

/-! ### A body that runs to the blank end of its line -/

/-- Behind the places of the text, the CRLF text has further ones to stop at, since a run may take
the carriage return. -/
theorem stops_crlf_append {accepts : Char → Bool} (newline : accepts '\n' = false)
    (cursor : Cursor) {ahead : Text} (sees : cursor.after = ahead) :
    ∃ further, stops accepts cursor.crlf ahead.crlf =
      (stops accepts cursor ahead).map Cursor.crlf ++ further := by
  induction ahead generalizing cursor with
  | nil => exact ⟨[], by simp [stops]⟩
  | cons c rest ih =>
    by_cases here : c = '\n'
    · subst here
      refine ⟨if accepts '\r' then [cursor.closed] else [], ?_⟩
      rw [Cursor.closed_of_newline sees]
      simp [stops, newline]
    · obtain ⟨further, places⟩ := ih (cursor.pass c rest) rfl
      rw [cursor.crlf_pass here rest] at places
      cases accepted : accepts c with
      | false => exact ⟨[], by simp [stops, Text.crlf_cons here, accepted]⟩
      | true => exact ⟨further, by simp [stops, Text.crlf_cons here, accepted, places]⟩

/-- A run over everything else can stop at the end of the line. -/
theorem exists_stop_ended (cursor : Cursor) (sees : cursor.after = ahead) :
    ∃ place ∈ stops (· != '\n') cursor ahead, ∀ c ∈ place.after.head?, c = '\n' := by
  induction ahead generalizing cursor with
  | nil => exact ⟨cursor, by simp [stops], by simp [sees]⟩
  | cons c rest ih =>
    by_cases here : c = '\n'
    · exact ⟨cursor, by simp [stops], by simp [sees, here]⟩
    · obtain ⟨place, listed, ended⟩ := ih (cursor.pass c rest) rfl
      exact ⟨place, by simp [stops, here, listed], ended⟩

/-- A body on one line: a character it may start with, and then as little as possible. -/
def lineBody (number : Nat) (starts : Char → Bool) : Pattern :=
  group number (seq (char starts) (run false (· != '\n')))

/-- A body on one line ends behind each stretch, grouped so far. -/
theorem ends_lineBody (number : Nat) {reading : Reading} {c : Char} {rest : Text}
    (ahead : reading.cursor.after = c :: rest) :
    (lineBody number starts).ends reading =
      if starts c then
        (stops (· != '\n') (reading.cursor.pass c rest) rest).map fun place =>
          ⟨place, (number, ⟨reading.cursor, place⟩) :: reading.groups⟩
      else
        [] := by
  cases accepted : starts c with
  | false => simp [lineBody, ends, ahead, accepted]
  | true =>
    simp only [lineBody, ends, ahead, accepted, ↓reduceIte, List.flatMap_cons, List.flatMap_nil,
      List.append_nil, Bool.false_eq_true, List.map_map]
    rfl

/-- The ends of a body in the CRLF text start with its ends in the text, among which is the end of
the line. -/
theorem ends_lineBody_crlf (number : Nat) (cr : starts '\r' = false) (newline : starts '\n' = false)
    (reading : Reading) :
    ∃ further, (lineBody number starts).ends reading.crlf =
        ((lineBody number starts).ends reading).map Reading.crlf ++ further ∧
      (further = [] ∨ ∃ next ∈ (lineBody number starts).ends reading,
        ∀ c ∈ next.cursor.after.head?, c = '\n') := by
  cases ahead : reading.cursor.after with
  | nil => exact ⟨[], by simp [lineBody, ends, ahead], .inl rfl⟩
  | cons c rest =>
    by_cases here : c = '\n'
    · subst here
      have ahead' : reading.crlf.cursor.after = '\r' :: '\n' :: Text.crlf rest := by
        simp [ahead]
      rw [ends_lineBody number ahead, ends_lineBody number ahead', cr, newline]
      exact ⟨[], rfl, .inl rfl⟩
    have ahead' : reading.crlf.cursor.after = c :: Text.crlf rest := by
      simp [ahead, Text.crlf_cons here]
    rw [ends_lineBody number ahead, ends_lineBody number ahead']
    cases starts c with
    | false => exact ⟨[], rfl, .inl rfl⟩
    | true =>
      have next : (reading.cursor.pass c rest).after = rest := rfl
      obtain ⟨further, places⟩ :=
        @stops_crlf_append (· != '\n') (by decide) (reading.cursor.pass c rest) rest next
      obtain ⟨place, listed, ended⟩ := exists_stop_ended (reading.cursor.pass c rest) next
      rw [reading.cursor.crlf_pass here rest] at places
      refine ⟨further.map fun place =>
        ⟨place, (number, ⟨reading.cursor.crlf, place⟩) :: reading.crlf.groups⟩, ?_,
        .inr ⟨_, List.mem_map.mpr ⟨place, listed, rfl⟩, ended⟩⟩
      rw [if_pos rfl, if_pos rfl, Reading.cursor_crlf, places, List.map_append, List.map_map,
        List.map_map]
      rfl

/-- A body with the blank end of its line behind it. The shortest body after which the rest goes on
is the same in both texts. -/
theorem closes_lineBody (key : Nat) (cr : starts '\r' = false) (newline : starts '\n' = false)
    (closes : (sequence rest).Closes number)
    (goes : ∀ reading : Reading, (∀ c ∈ reading.cursor.after.head?, c = '\n') →
      ((sequence rest).ends reading).head?.isSome) :
    (sequence (lineBody key starts :: rest)).Closes number := by
  intro reading
  obtain ⟨further, places, ended⟩ := ends_lineBody_crlf key cr newline reading
  have same : Option.Rel (Reading.Closes number)
      (((lineBody key starts).ends reading).findSome? fun next => ((sequence rest).ends next).head?)
      ((((lineBody key starts).ends reading).map Reading.crlf).findSome? fun next =>
        ((sequence rest).ends next).head?) := by
    rw [List.findSome?_map]
    exact rel_findSome? fun next _ => closes next
  rw [ends_sequence_cons, ends_sequence_cons, List.head?_flatMap, List.head?_flatMap, places]
  rcases ended with none | ⟨next, listed, ended⟩
  · rwa [none, List.append_nil]
  · -- The text has an end here, so that the further places are not asked for.
    have found : (((lineBody key starts).ends reading).findSome? fun next =>
        ((sequence rest).ends next).head?).isSome :=
      List.findSome?_isSome_iff.mpr ⟨next, listed, goes next ended⟩
    rw [List.findSome?_append]
    generalize List.findSome? _ ((lineBody key starts).ends reading) = first at same found ⊢
    generalize List.findSome? _ (((lineBody key starts).ends reading).map Reading.crlf) =
      first' at same ⊢
    cases same with
    | some closes => exact .some closes
    | none => simp at found

end Pattern

end ScriptCheck
