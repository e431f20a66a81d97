import Mathlib.Data.List.Forall2
import ScriptCheck.Proofs.Crlf.Matches
import ScriptCheck.Rule.Phrase

/-!
# Names that start afresh, and carriage returns

Some searches take the character in front of a name along, to see that the name starts
afresh there. At the start of a line this is the newline, in the CRLF text too, where
the search therefore finds the name from the place between the carriage return and the
newline. What follows the name may take a newline along at its very end, as an assignment
does with the character behind its equals sign; in the CRLF text that is the carriage
return, and the newline is left over. It can make a difference only if something is found
from there. Two searches are compared by whether they find what a test asks for.
-/

namespace ScriptCheck

/-- How the places that a pattern stops at go together: a newline that the pattern ends in
is the carriage return in the CRLF text. -/
inductive Cursor.Meets : Cursor → Cursor → Prop where
  | same {cursor : Cursor} (inLine : cursor.before.head? ≠ some '\n') :
    Meets cursor cursor.crlf
  | broken {place : Cursor} {rest : Text} (ahead : place.after = '\n' :: rest) :
    Meets (place.pass '\n' rest) place.closed

/-- How readings of the two texts go together. The groups of one start where those of the
other do. -/
structure Reading.Meets (reading reading' : Reading) : Prop where
  cursor : reading.cursor.Meets reading'.cursor
  starts : ∀ key, (reading'.groups.lookup key).map Piece.start =
    (reading.groups.lookup key).map fun piece => piece.start.crlf

/-- How matches in the two texts go together that start afresh with a name. -/
structure Match.Meets (found found' : Match) : Prop where
  stop : found.whole.stop.Meets found'.whole.stop
  starts : ∀ key, key ≠ 0 → (found'.group? key).map Piece.start =
    (found.group? key).map fun piece => piece.start.crlf

/-- The groups in the CRLF text start at the CRLF forms of places. -/
theorem Reading.starts_crlf (reading : Reading) (key : Nat) :
    (reading.crlf.groups.lookup key).map Piece.start =
      (reading.groups.lookup key).map fun piece => piece.start.crlf := by
  have kept : reading.crlf.groups.lookup key =
      (reading.groups.lookup key).map Piece.crlf :=
    Piece.lookup_map_crlf reading.groups key
  rw [kept, Option.map_map]
  rfl

/-- A reading meets its CRLF form where it is not behind a newline. -/
theorem Reading.meets_crlf {reading : Reading}
    (inLine : reading.cursor.before.head? ≠ some '\n') : reading.Meets reading.crlf :=
  ⟨.same inLine, reading.starts_crlf⟩

/-- A place compares with others as its place in the CRLF search. -/
theorem Cursor.Within.closed_lt_shifted {text : Text} {cursor : Cursor}
    (within : cursor.Within text) {offset : Nat} :
    cursor.closed.offset < text.shifted offset ↔ cursor.offset < offset := by
  cases newline : cursor.atNewline with
  | false => rw [closed_of_not newline, within.offset_crlf, text.shifted_lt_iff]
  | true =>
    have next := within.offset_newline newline
    have order := @Text.shifted_lt_iff text cursor.offset offset
    have order' := @Text.shifted_lt_iff text offset (cursor.offset + 1)
    rw [offset_closed newline]
    rw [← within.offset_crlf] at order
    omega

namespace Pattern

open Phrase

variable {first second pattern : Pattern} {related : Reading → Reading → Prop}

/-- The ends of the pattern in the CRLF text go one by one with its ends in the text. -/
def Relates (related : Reading → Reading → Prop) (pattern : Pattern) : Prop :=
  ∀ reading, List.Forall₂ related (pattern.ends reading) (pattern.ends reading.crlf)

/-- The pattern never stops behind a newline. -/
def EndsInLine (pattern : Pattern) : Prop :=
  ∀ reading, ∀ next ∈ pattern.ends reading, next.cursor.before.head? ≠ some '\n'

/-- A word without newlines ends within a line. -/
theorem endsInLine_word {target : Text} (present : target ≠ [])
    (inLine : ∀ c ∈ target, c ≠ '\n') : (word target).EndsInLine := by
  intro reading next reached
  obtain ⟨body, captures, spans, fits, -⟩ := advances_of_mem_ends _ reading next reached
  obtain ⟨rfl, -⟩ := fits_word.mp fits
  obtain ⟨front, c, rfl⟩ := (List.eq_nil_or_concat body).resolve_left present
  rw [spans.behind]
  simpa using inLine c (by simp)

/-- A sequence ends within a line if its second pattern does. -/
theorem endsInLine_seq (first : Pattern) (inLine : second.EndsInLine) :
    (seq first second).EndsInLine := by
  intro reading next reached
  obtain ⟨middle, -, further⟩ := List.mem_flatMap.mp reached
  exact inLine middle next further

/-- A choice ends within a line if both sides do. -/
theorem endsInLine_either (inLine : first.EndsInLine) (inLine' : second.EndsInLine) :
    (either first second).EndsInLine := by
  intro reading next reached
  rcases List.mem_append.mp reached with here | there
  · exact inLine reading next here
  · exact inLine' reading next there

/-- A condition on the place behind a pattern takes no character. -/
theorem endsInLine_seq_anchor (condition : Anchor) (inLine : first.EndsInLine) :
    (seq first (anchor condition)).EndsInLine := by
  intro reading next reached
  obtain ⟨middle, listed, further⟩ := List.mem_flatMap.mp reached
  obtain ⟨-, rfl⟩ : condition.holds middle.cursor = true ∧ next = middle := by
    simpa [ends] using further
  exact inLine reading next listed

/-- A pattern that commutes relates the texts if its ends do. -/
theorem relates_of_commutes (commutes : pattern.Commutes)
    (each : ∀ reading, ∀ next ∈ pattern.ends reading, related next next.crlf) :
    pattern.Relates related := by
  intro reading
  rw [commutes reading, List.forall₂_map_right_iff, List.forall₂_same]
  exact each reading

/-- A pattern that commutes and ends in a line relates the texts. -/
theorem relates_of_endsInLine (commutes : pattern.Commutes) (inLine : pattern.EndsInLine) :
    pattern.Relates Reading.Meets :=
  relates_of_commutes commutes fun reading next listed =>
    Reading.meets_crlf (inLine reading next listed)

/-- One character of a class with both line ends: at a newline, the pattern takes the carriage
return in the CRLF text, and stands in front of the newline. -/
theorem relates_char {accepts : Char → Bool} (both : accepts '\r' = accepts '\n') :
    (char accepts).Relates Reading.Meets := by
  intro reading
  cases ahead : reading.cursor.after with
  | nil => simp [ends, ahead]
  | cons c rest =>
    by_cases here : c = '\n'
    · subst here
      cases accepted : accepts '\n' with
      | false => simp [ends, ahead, both, accepted]
      | true =>
        have closed := Cursor.closed_of_newline ahead
        simp only [ends, ahead, Reading.cursor_crlf, Cursor.after_crlf,
          Text.crlf_newline, both, accepted, ↓reduceIte, ← closed]
        exact .cons ⟨.broken ahead, reading.starts_crlf⟩ .nil
    · have pass := reading.cursor.crlf_pass here rest
      cases accepted : accepts c with
      | false => simp [ends, ahead, Text.crlf_cons here, accepted]
      | true =>
        simp only [ends, ahead, Reading.cursor_crlf, Cursor.after_crlf,
          Text.crlf_cons here, accepted, ↓reduceIte, ← pass]
        have inLine : (reading.cursor.pass c rest).before.head? ≠ some '\n' := by
          simpa [Cursor.pass] using here
        exact .cons ⟨.same inLine, reading.starts_crlf⟩ .nil

/-- A sequence relates the texts if its first commutes and its second goes on alike. -/
theorem relates_seq (commutes : first.Commutes)
    (each : ∀ reading, ∀ next ∈ first.ends reading,
      List.Forall₂ related (second.ends next) (second.ends next.crlf)) :
    (seq first second).Relates related := by
  intro reading
  simp only [ends, commutes reading, List.flatMap_map]
  have each' := each reading
  generalize first.ends reading = readings at each' ⊢
  induction readings with
  | nil => exact .nil
  | cons next rest ih =>
    rw [List.flatMap_cons, List.flatMap_cons]
    exact List.rel_append (each' next (.head _))
      (ih fun other listed => each' other (.tail _ listed))

/-- A choice relates the two texts if both sides do. -/
theorem relates_either (relates : first.Relates related) (relates' : second.Relates related) :
    (either first second).Relates related := by
  intro reading
  simp only [ends]
  exact List.rel_append (relates reading) (relates' reading)

/-- A group relates the two texts if its pattern does. -/
theorem relates_group (number : Nat) (relates : pattern.Relates Reading.Meets) :
    (group number pattern).Relates Reading.Meets := by
  intro reading
  simp only [ends]
  refine List.rel_map ?_ (relates reading)
  intro next next' meets
  refine ⟨meets.cursor, fun key => ?_⟩
  simp only [List.lookup_cons]
  cases key == number with
  | true => rfl
  | false => exact meets.starts key

/-! ### What a name starts afresh behind -/

/-- In front of a newline such a pattern has no end in either text. -/
theorem ends_crlf_of_shuns (relates : pattern.Relates related) (shuns : pattern.Shuns)
    {reading : Reading} (newline : reading.cursor.atNewline = true) :
    pattern.ends reading.crlf = [] := by
  have none := relates reading
  rw [shuns reading newline] at none
  exact List.forall₂_nil_left_iff.mp none

/-- A place is at the start exactly if its CRLF form is. -/
@[simp] theorem isEmpty_before_crlf (cursor : Cursor) :
    cursor.crlf.before.isEmpty = cursor.before.isEmpty := by
  show (Text.crlf cursor.before.reverse).reverse.isEmpty = _
  rw [Bool.eq_iff_iff, List.isEmpty_iff, List.isEmpty_iff, List.reverse_eq_nil_iff,
    Text.crlf_eq_nil_iff, List.reverse_eq_nil_iff]

/-- A character that a name starts afresh behind. -/
def partsNames (c : Char) : Bool := !continuesName c && c != '.'

/-- A name starts at the start of the text, or a character on. -/
theorem ends_fresh (pattern : Pattern) (reading : Reading) :
    (seq freshName pattern).ends reading =
      (if reading.cursor.before.isEmpty then pattern.ends reading else []) ++
        ((char partsNames).ends reading).flatMap pattern.ends := by
  have split : (seq freshName pattern).ends reading =
      ((anchor .textStart).ends reading).flatMap pattern.ends ++
        ((char partsNames).ends reading).flatMap pattern.ends := List.flatMap_append
  rw [split]
  congr 1
  rw [ends, Anchor.holds]
  by_cases empty : reading.cursor.before.isEmpty = true
  · rw [if_pos empty, if_pos empty, List.flatMap_singleton]
  · rw [if_neg empty, if_neg empty, List.flatMap_nil]

/-- Behind a character that parts names, the pattern goes on. -/
theorem ends_partsNames {reading : Reading} {c : Char} {rest : Text}
    (ahead : reading.cursor.after = c :: rest) :
    ((char partsNames).ends reading).flatMap pattern.ends =
      if partsNames c then pattern.ends ⟨reading.cursor.pass c rest, reading.groups⟩ else [] := by
  simp only [ends, ahead]
  cases partsNames c <;> simp

/-- At the start of a line a name is found from the place in front of the newline, in the
CRLF text from the place between the carriage return and it. -/
theorem forall₂_ends_fresh (relates : pattern.Relates related) (shuns : pattern.Shuns)
    (cursor : Cursor) :
    List.Forall₂ related ((seq freshName pattern).ends ⟨cursor, []⟩)
      ((seq freshName pattern).ends ⟨cursor.closed, []⟩) := by
  rw [ends_fresh, ends_fresh]
  cases newline : cursor.atNewline with
  | true =>
    obtain ⟨rest, ahead⟩ := Cursor.atNewline_iff.mp newline
    have closed := Cursor.closed_of_newline ahead
    have ahead' : cursor.closed.after = '\n' :: Text.crlf rest := by rw [closed]; rfl
    have behind : cursor.closed.before.isEmpty = false := by rw [closed]; rfl
    have passed : partsNames '\n' = true := by decide
    rw [ends_partsNames ahead, ends_partsNames ahead', shuns ⟨cursor, []⟩ newline, behind, passed,
      ← Cursor.crlf_pass_newline ahead]
    have next := relates ⟨cursor.pass '\n' rest, []⟩
    simpa [Reading.crlf] using next
  | false =>
    rw [Cursor.closed_of_not newline]
    refine List.rel_append ?_ ?_
    · simp only [isEmpty_before_crlf]
      split
      · exact relates ⟨cursor, []⟩
      · exact .nil
    · cases ahead : cursor.after with
      | nil => simp [ends, ahead]
      | cons c rest =>
        have here : c ≠ '\n' := by simpa [Cursor.atNewline, ahead] using newline
        have ahead' : cursor.crlf.after = c :: Text.crlf rest := by
          simp [ahead, Text.crlf_cons here]
        rw [ends_partsNames ahead, ends_partsNames ahead', ← cursor.crlf_pass here rest]
        split
        · exact relates ⟨cursor.pass c rest, []⟩
        · exact .nil

/-- In front of the carriage return nothing is found. -/
theorem ends_fresh_crlf (relates : pattern.Relates related) (shuns : pattern.Shuns)
    {cursor : Cursor} (newline : cursor.atNewline = true) :
    (seq freshName pattern).ends ⟨cursor.crlf, []⟩ = [] := by
  obtain ⟨rest, ahead⟩ := Cursor.atNewline_iff.mp newline
  have ahead' : cursor.crlf.after = '\r' :: '\n' :: Text.crlf rest := by simp [ahead]
  have here : pattern.ends ⟨cursor.crlf, []⟩ = [] :=
    @ends_crlf_of_shuns pattern related relates shuns ⟨cursor, []⟩ newline
  rw [ends_fresh, ends_partsNames ahead', here, shuns ⟨cursor.crlf.pass '\r' _, []⟩ rfl]
  simp

/-- A name that starts afresh occurs in both texts or in none. -/
theorem occursIn_fresh_crlf (relates : pattern.Relates related) (shuns : pattern.Shuns)
    (text : Text) :
    (seq freshName pattern).occursIn text.crlf = (seq freshName pattern).occursIn text := by
  refine occursIn_crlf_of_ends (fun cursor => ?_) text
  have closed : (seq freshName pattern).ends ⟨cursor.closed, []⟩ = [] ↔
      (seq freshName pattern).ends ⟨cursor, []⟩ = [] := by
    rw [← List.length_eq_zero_iff, ← List.length_eq_zero_iff,
      (forall₂_ends_fresh relates shuns cursor).length_eq]
  cases newline : cursor.atNewline with
  | true => simp [closed, ends_fresh_crlf relates shuns newline]
  | false => simp [← closed, Cursor.closed_of_not newline]

/-! ### Matches of a name that starts afresh -/

/-- The first elements of lists that go together do so. -/
theorem rel_head? {α β : Type} {related : α → β → Prop} {elements : List α} {elements' : List β}
    (each : List.Forall₂ related elements elements') :
    Option.Rel related elements.head? elements'.head? := by
  cases each with
  | nil => exact .none
  | cons first _ => exact .some first

/-- At the same place the pattern matches in both texts or in none, and the matches then stop at
places that meet. -/
theorem matchAt?_fresh (relates : pattern.Relates Reading.Meets) (shuns : pattern.Shuns)
    (cursor : Cursor) :
    Option.Rel Match.Meets ((seq freshName pattern).matchAt? cursor)
      ((seq freshName pattern).matchAt? cursor.closed) := by
  have first := rel_head? (forall₂_ends_fresh relates shuns cursor)
  rw [matchAt?, matchAt?]
  generalize ((seq freshName pattern).ends ⟨cursor, []⟩).head? = next at first ⊢
  generalize ((seq freshName pattern).ends ⟨cursor.closed, []⟩).head? = next' at first ⊢
  cases first with
  | none => exact .none
  | some meets =>
    refine .some ⟨meets.cursor, fun key positive => ?_⟩
    obtain ⟨index, rfl⟩ := Nat.exists_eq_succ_of_ne_zero positive
    by_cases counted : index < (seq freshName pattern).groupCount
    · simpa [Match.group?, counted] using meets.starts (index + 1)
    · simp [Match.group?, counted]

/-- Without a match at a place there is none at its CRLF form. -/
theorem matchAt?_fresh_none (relates : pattern.Relates Reading.Meets) (shuns : pattern.Shuns)
    {cursor : Cursor} (none : (seq freshName pattern).matchAt? cursor = none) :
    (seq freshName pattern).matchAt? cursor.closed = Option.none := by
  have matched := matchAt?_fresh relates shuns cursor
  rw [none] at matched
  generalize (seq freshName pattern).matchAt? cursor.closed = there at matched ⊢
  cases matched
  rfl

/-- A match at a place meets one at its CRLF form. -/
theorem exists_matchAt?_fresh (relates : pattern.Relates Reading.Meets) (shuns : pattern.Shuns)
    {cursor : Cursor} {found : Match}
    (here : (seq freshName pattern).matchAt? cursor = some found) :
    ∃ found', (seq freshName pattern).matchAt? cursor.closed = some found' ∧
      found.Meets found' := by
  have matched := matchAt?_fresh relates shuns cursor
  rw [here] at matched
  generalize (seq freshName pattern).matchAt? cursor.closed = there at matched ⊢
  cases matched with
  | some meets => exact ⟨_, rfl, meets⟩

/-- The pattern takes at least one character wherever it matches. -/
def Moves (pattern : Pattern) : Prop :=
  ∀ (cursor : Cursor) (found : Match),
    pattern.matchAt? cursor = some found → cursor.offset < found.stop

/-- From where on a search goes on does not matter if nothing matches in between, as those places
are tried in vain. -/
theorem matchesFrom_of_none_between (moves : pattern.Moves) {stop stop' : Nat}
    (ordered : stop ≤ stop') {places : List Cursor}
    (none : ∀ place ∈ places, stop ≤ place.offset → place.offset < stop' →
      pattern.matchAt? place = none) :
    pattern.matchesFrom (some stop) places = pattern.matchesFrom (some stop') places := by
  induction places with
  | nil => rfl
  | cons place rest ih =>
    have further := ih fun other listed => none other (.tail _ listed)
    by_cases early : place.offset < stop
    · rw [matchesFrom_of_lt (by simpa using early), matchesFrom_of_lt (by simp; omega), further]
    · by_cases between : place.offset < stop'
      · rw [matchesFrom_of_none (none place (.head _) (by omega) between),
          matchesFrom_of_lt (by simpa using between), further]
      · cases matched : pattern.matchAt? place with
        | none => rw [matchesFrom_of_none matched, matchesFrom_of_none matched, further]
        | some found =>
          have ahead := moves place found matched
          rw [matchesFrom_of_some matched (by simp; omega) (by omega),
            matchesFrom_of_some matched (by simp; omega) (by omega)]

variable {text : Text} {cursor : Cursor} {rest rest' : List Cursor} {holds holds' : Match → Bool}

/-- The test says the same of the matches found as another one says in the CRLF text. Of a
match that does not pass it, no other match starts with the newline it ends in. -/
structure Agrees (pattern : Pattern) (holds holds' : Match → Bool) (found : List Match) : Prop where
  same : ∀ matched ∈ found, ∀ place matched', pattern.matchAt? place = some matched' →
    matched.Meets matched' → holds' matched' = holds matched
  lone : ∀ matched ∈ found, holds matched = false → ∀ place rest, place.after = '\n' :: rest →
    matched.whole.stop = place.pass '\n' rest → pattern.matchAt? place = none

/-- Conditions that agree on a list agree behind its first. -/
theorem Agrees.tail {matched : Match} {found : List Match}
    (agrees : pattern.Agrees holds holds' (matched :: found)) : pattern.Agrees holds holds' found :=
  ⟨fun other listed => agrees.same other (.tail _ listed),
    fun other listed => agrees.lone other (.tail _ listed)⟩

/-- Behind a match that does not pass, the search goes on from the same places. The stops may differ
by a newline, where nothing matches. -/
theorem matchesFrom_fresh_behind (relates : pattern.Relates Reading.Meets) (shuns : pattern.Shuns)
    (moves : (seq freshName pattern).Moves) {found found' : Match} (meets : found.Meets found')
    (within : found.whole.stop.Within text)
    (lone : ∀ place rest, place.after = '\n' :: rest → found.whole.stop = place.pass '\n' rest →
      (seq freshName pattern).matchAt? place = none)
    (places : ∀ place ∈ rest', place.Within text.crlf) :
    (seq freshName pattern).matchesFrom (some found'.stop) rest' =
      (seq freshName pattern).matchesFrom (some (text.shifted found.stop)) rest' := by
  obtain ⟨stop, -⟩ := meets
  rw [Match.stop, Match.stop]
  generalize found.whole.stop = cursor at stop within lone ⊢
  generalize found'.whole.stop = cursor' at stop ⊢
  cases stop with
  | same inLine => rw [within.offset_crlf]
  | @broken place rest ahead =>
    have newline : place.atNewline = true := Cursor.atNewline_iff.mpr ⟨rest, ahead⟩
    have within' : place.Within text := by
      rw [Cursor.Within, within, ahead]
      simp [Cursor.pass]
    have closed : place.closed.Within text.crlf := by
      have after : place.crlf.after = '\r' :: '\n' :: Text.crlf rest := by simp [ahead]
      rw [Cursor.closed_of_newline ahead]
      exact within'.crlf.pass after
    have next : text.shifted (place.pass '\n' rest).offset = place.closed.offset + 1 := by
      rw [Cursor.Within.offset_closed newline]
      exact within'.offset_newline newline
    rw [next]
    -- The one place in between is the one that the newline is left over at.
    refine matchesFrom_of_none_between moves (Nat.le_succ _) fun other listed behind before => ?_
    obtain rfl : other = place.closed := (places other listed).eq_of_offset closed (by omega)
    exact matchAt?_fresh_none relates shuns (lone place rest ahead rfl)

/-- One place of a search for a name that starts afresh. It is passed over in both texts, matches in
none, or matches in both with the same verdict. -/
theorem any_matchesFrom_fresh_cons (relates : pattern.Relates Reading.Meets)
    (shuns : pattern.Shuns) (moves : (seq freshName pattern).Moves) (within : cursor.Within text)
    (places : ∀ place ∈ rest', place.Within text.crlf)
    (behind : ∀ last : Option Nat,
      (seq freshName pattern).Agrees holds holds' ((seq freshName pattern).matchesFrom last rest) →
      ((seq freshName pattern).matchesFrom (last.map text.shifted) rest').any holds' =
        ((seq freshName pattern).matchesFrom last rest).any holds)
    (last : Option Nat)
    (agrees : (seq freshName pattern).Agrees holds holds'
      ((seq freshName pattern).matchesFrom last (cursor :: rest))) :
    ((seq freshName pattern).matchesFrom (last.map text.shifted) (cursor.closed :: rest')).any
        holds' =
      ((seq freshName pattern).matchesFrom last (cursor :: rest)).any holds := by
  have passed : ((last.map text.shifted).any fun stop => cursor.closed.offset < stop) =
      last.any fun stop => cursor.offset < stop := by
    simp [Option.any_map, within.closed_lt_shifted]
  cases before : last.any fun stop => cursor.offset < stop with
  | true =>
    rw [before] at passed
    rw [matchesFrom_of_lt before] at agrees ⊢
    rw [matchesFrom_of_lt passed]
    exact behind last agrees
  | false =>
    rw [before] at passed
    cases here : (seq freshName pattern).matchAt? cursor with
    | none =>
      rw [matchesFrom_of_none here] at agrees ⊢
      rw [matchesFrom_of_none (matchAt?_fresh_none relates shuns here)]
      exact behind last agrees
    | some found =>
      obtain ⟨found', there, meets⟩ := exists_matchAt?_fresh relates shuns here
      obtain ⟨-, within', -⟩ := within_of_matchAt? within here
      have ahead : cursor.offset < found.stop := moves cursor found here
      have ahead' : cursor.closed.offset < found'.stop := moves cursor.closed found' there
      rw [matchesFrom_of_some here before (by omega)] at agrees ⊢
      rw [matchesFrom_of_some there passed (by omega), List.any_cons, List.any_cons,
        agrees.same found (.head _) cursor.closed found' there meets]
      cases passes : holds found with
      | true => rfl
      | false =>
        rw [matchesFrom_fresh_behind relates shuns moves meets within'
          (agrees.lone found (.head _) passes) places]
        exact behind (some found.stop) agrees.tail

/-- The search for a name that starts afresh, from a place on. The induction is on the text ahead; a
newline adds a place at which nothing is found. -/
theorem any_matchesFrom_fresh (relates : pattern.Relates Reading.Meets) (shuns : pattern.Shuns)
    (moves : (seq freshName pattern).Moves) (within : cursor.Within text) {ahead : Text}
    (sees : cursor.after = ahead) (last : Option Nat)
    (agrees : (seq freshName pattern).Agrees holds holds'
      ((seq freshName pattern).matchesFrom last (cursor.onward ahead))) :
    ((seq freshName pattern).matchesFrom (last.map text.shifted)
        (cursor.crlf.onward ahead.crlf)).any holds' =
      ((seq freshName pattern).matchesFrom last (cursor.onward ahead)).any holds := by
  induction ahead generalizing cursor last with
  | nil =>
    have last' : cursor.atNewline = false := by simp [Cursor.atNewline, sees]
    have step := @any_matchesFrom_fresh_cons pattern text cursor [] [] holds holds' relates shuns
      moves within (by simp) (fun _ _ => rfl) last agrees
    rwa [Cursor.closed_of_not last'] at step
  | cons c rest ih =>
    have further (last : Option Nat) := ih (within.pass sees) rfl last
    have step := fun rest' places behind => @any_matchesFrom_fresh_cons pattern text cursor
      ((cursor.pass c rest).onward rest) rest' holds holds' relates shuns moves within places
      behind last agrees
    have places : ∀ place ∈ (cursor.pass c rest).crlf.onward (Text.crlf rest),
        place.Within text.crlf := by
      intro place listed
      obtain ⟨body, spans⟩ := Cursor.spans_of_mem_onward _ rfl listed
      exact (within.pass sees).crlf.spans spans
    by_cases newline : c = '\n'
    · subst newline
      have here : cursor.atNewline = true := Cursor.atNewline_iff.mpr ⟨rest, sees⟩
      have none : (seq freshName pattern).matchAt? cursor.crlf = none := by
        rw [matchAt?, ends_fresh_crlf relates shuns here]
        rfl
      have onward : cursor.crlf.onward (Text.crlf ('\n' :: rest)) = cursor.crlf ::
          cursor.closed :: (cursor.pass '\n' rest).crlf.onward (Text.crlf rest) := by
        rw [Cursor.crlf_pass_newline sees, Cursor.closed_of_newline sees]
        rfl
      rw [onward, matchesFrom_of_none none]
      exact step _ places further
    · have other : cursor.atNewline = false := by simp [Cursor.atNewline, sees, newline]
      rw [cursor.crlf_pass newline] at further places
      rw [Text.crlf_cons newline]
      have next := step _ places further
      rwa [Cursor.closed_of_not other] at next

/-- A name that starts afresh is found in both texts, with what is asked for, or in none. -/
theorem any_allMatches_fresh (relates : pattern.Relates Reading.Meets) (shuns : pattern.Shuns)
    (moves : (seq freshName pattern).Moves) (text : Text)
    (agrees : (seq freshName pattern).Agrees holds holds'
      ((seq freshName pattern).allMatches text)) :
    ((seq freshName pattern).allMatches text.crlf).any holds' =
      ((seq freshName pattern).allMatches text).any holds :=
  any_matchesFrom_fresh relates shuns moves (.start text) rfl none agrees

end Pattern

end ScriptCheck
