import ScriptCheck.Proofs.Boundaries
import ScriptCheck.Proofs.Crlf.Patterns

/-!
# Matches and carriage returns

A search goes over the places of a text from left to right, and of the CRLF text over
the same places and those between a carriage return and its newline. At a place of the
latter kind a pattern that shuns a newline does not match. Hence a pattern that commutes
with returns has the same matches in both texts. A pattern that runs to the end of a line
stops behind the carriage return instead of in front of the newline; the place it leaves
out in this way is one at which it would not have matched.
-/

namespace ScriptCheck

namespace Cursor.Within

variable {text : Text} {cursor other : Cursor}

/-- Passing a character leads to a place of the same text. -/
theorem pass (within : cursor.Within text) {c : Char} {rest : Text}
    (ahead : cursor.after = c :: rest) : (cursor.pass c rest).Within text :=
  within.spans (.pass ahead)

/-- The CRLF form of a place is a place of the CRLF text. -/
protected theorem crlf (within : cursor.Within text) :
    cursor.crlf.Within text.crlf := by
  rw [Within, within, Text.crlf_append, before_crlf, List.reverse_reverse, after_crlf]

/-- A place has moved on by the newlines in front of it. -/
theorem offset_crlf (within : cursor.Within text) :
    cursor.crlf.offset = text.shifted cursor.offset := by
  rw [within, offset_eq cursor, Text.shifted_width]
  exact Text.width_reverse _

/-- The offset tells the places of a text apart. -/
theorem eq_of_offset (within : cursor.Within text) (within' : other.Within text)
    (same : cursor.offset = other.offset) : cursor = other := by
  rw [offset_eq, offset_eq] at same
  have whole : cursor.before.reverse ++ cursor.after = other.before.reverse ++ other.after :=
    within.symm.trans within'
  obtain ⟨before, after⟩ := Text.append_inj_of_width whole same
  exact Cursor.eq_of_sides (List.reverse_inj.mp before) after

end Cursor.Within

/-- A place further on is one of the places from a cursor on. -/
theorem Cursor.Spans.mem_onward {cursor place : Cursor} {body : Text}
    (spans : cursor.Spans place body) : place ∈ cursor.onward cursor.after := by
  induction body generalizing cursor with
  | nil =>
    obtain rfl : place = cursor := Cursor.eq_of_sides spans.behind spans.ahead.symm
    cases place.after <;> exact .head _
  | cons c body ih =>
    have ahead : cursor.after = c :: (body ++ place.after) := spans.ahead
    have further : (cursor.pass c (body ++ place.after)).Spans place body :=
      ⟨rfl, by simp [spans.behind, Cursor.pass]⟩
    rw [ahead]
    exact .tail _ (ih further)

/-- Every place of a text is tried by a search. -/
theorem Cursor.Within.mem_all {text : Text} {cursor : Cursor} (within : cursor.Within text) :
    cursor ∈ Cursor.all text := by
  have spans : (Cursor.start text).Spans cursor cursor.before.reverse :=
    ⟨within, by simp [Cursor.start]⟩
  exact spans.mem_onward

/-- Between a carriage return and its newline, a newline follows. -/
theorem Cursor.atNewline_closed {cursor : Cursor} (newline : cursor.atNewline = true) :
    cursor.closed.atNewline = true := by
  obtain ⟨rest, ahead⟩ := atNewline_iff.mp newline
  rw [closed_of_newline ahead]
  rfl

/-- A match as a match in the CRLF text. -/
def Match.crlf (found : Match) : Match where
  whole := found.whole.crlf
  groups := found.groups.map (Option.map Piece.crlf)

/-- The groups of a match in the CRLF text are the same, moved. -/
theorem Match.group?_crlf (found : Match) (number : Nat) :
    found.crlf.group? number = (found.group? number).map Piece.crlf := by
  cases number with
  | zero => rfl
  | succ index =>
    simp only [group?, crlf, List.getElem?_map]
    cases found.groups[index]? with
    | none => rfl
    | some piece => cases piece <;> rfl

/-- The characters of a piece are the same with carriage returns. -/
theorem Piece.Within.body_crlf {text : Text} {piece : Piece} (within : piece.Within text) :
    piece.crlf.body = piece.body.crlf :=
  within.spans.crlf.piece_body

namespace Pattern

/-- What a pattern matches at a place of a text stops at a place of it. -/
theorem within_of_matchAt? {pattern : Pattern} {text : Text} {cursor : Cursor} {found : Match}
    (within : cursor.Within text) (matched : pattern.matchAt? cursor = some found) :
    found.whole.start = cursor ∧ found.whole.stop.Within text ∧
      cursor.offset ≤ found.whole.stop.offset := by
  obtain ⟨reading, first, rfl⟩ := Option.map_eq_some_iff.mp matched
  obtain ⟨body, -, spans, -⟩ :=
    advances_of_mem_ends pattern ⟨cursor, []⟩ reading (List.mem_of_mem_head? first)
  exact ⟨rfl, within.spans spans, by rw [spans.offset_eq]; exact Nat.le_add_right _ _⟩

/-! ### Whether a pattern occurs -/

/-- The places of the CRLF text come from those of the text. A newline has two, in front of its
carriage return and behind it. -/
theorem mem_onward_crlf {cursor place' : Cursor} {ahead : Text} (sees : cursor.after = ahead) :
    place' ∈ cursor.crlf.onward ahead.crlf ↔
      ∃ place ∈ cursor.onward ahead, place' = place.crlf ∨ place' = place.closed := by
  induction ahead generalizing cursor with
  | nil =>
    have last : cursor.atNewline = false := by simp [Cursor.atNewline, sees]
    simp [Cursor.onward, Cursor.closed_of_not last]
  | cons c rest ih =>
    have further := @ih (cursor.pass c rest) rfl
    by_cases newline : c = '\n'
    · subst newline
      rw [Cursor.crlf_pass_newline sees, Cursor.closed_of_newline sees] at further
      simp only [Text.crlf_newline, Cursor.onward, List.mem_cons, further, or_and_right,
        exists_or, exists_eq_left, Cursor.closed_of_newline sees, or_assoc]
    · have other : cursor.atNewline = false := by simp [Cursor.atNewline, sees, newline]
      rw [cursor.crlf_pass newline] at further
      simp only [Text.crlf_cons newline, Cursor.onward, List.mem_cons, further, or_and_right,
        exists_or, exists_eq_left, Cursor.closed_of_not other, or_self]

/-- A pattern does not occur exactly if it has no end anywhere. -/
theorem occursIn_eq_false_iff {pattern : Pattern} {text : Text} :
    pattern.occursIn text = false ↔
      ∀ place ∈ Cursor.all text, pattern.ends ⟨place, []⟩ = [] := by
  simp [occursIn, firstMatch?, matchAt?]

/-- A pattern occurs in both texts or in none, if it has ends from the same places. -/
theorem occursIn_crlf_of_ends {pattern : Pattern}
    (same : ∀ cursor : Cursor, pattern.ends ⟨cursor.crlf, []⟩ = [] ∧
      pattern.ends ⟨cursor.closed, []⟩ = [] ↔ pattern.ends ⟨cursor, []⟩ = []) (text : Text) :
    pattern.occursIn text.crlf = pattern.occursIn text := by
  rw [← Bool.not_inj_iff, Bool.eq_iff_iff, Bool.not_eq_true', Bool.not_eq_true',
    occursIn_eq_false_iff, occursIn_eq_false_iff]
  have places (place' : Cursor) := @mem_onward_crlf (Cursor.start text) place' text rfl
  constructor
  · intro none place listed
    exact (same place).mp ⟨none _ ((places _).mpr ⟨place, listed, .inl rfl⟩),
      none _ ((places _).mpr ⟨place, listed, .inr rfl⟩)⟩
  · intro none place' listed
    obtain ⟨place, among, rfl | rfl⟩ := (places place').mp listed
    · exact ((same place).mpr (none place among)).1
    · exact ((same place).mpr (none place among)).2

/-- A pattern that shuns newlines finds nothing in front of one. -/
theorem matchAt?_of_shuns {pattern : Pattern} (shuns : pattern.Shuns) {cursor : Cursor}
    (newline : cursor.atNewline = true) : pattern.matchAt? cursor = none := by
  rw [matchAt?, shuns ⟨cursor, []⟩ newline]
  rfl

/-! ### Patterns that commute -/

/-- A pattern that commutes matches alike at corresponding places. -/
theorem matchAt?_crlf {pattern : Pattern} (commutes : pattern.Commutes) (cursor : Cursor) :
    pattern.matchAt? cursor.crlf = (pattern.matchAt? cursor).map Match.crlf := by
  have ends := commutes ⟨cursor, []⟩
  have start : Reading.crlf ⟨cursor, []⟩ = ⟨cursor.crlf, []⟩ := rfl
  rw [start] at ends
  rw [matchAt?, matchAt?, ends, List.head?_map, Option.map_map, Option.map_map]
  congr 1
  funext reading
  simp only [Function.comp_def, Match.crlf, Reading.crlf, Piece.lookup_map_crlf,
    List.map_map]
  rfl

/-- A pattern that commutes and shuns newlines occurs alike. -/
theorem occursIn_crlf {pattern : Pattern} (commutes : pattern.Commutes)
    (shuns : pattern.Shuns) (text : Text) :
    pattern.occursIn text.crlf = pattern.occursIn text := by
  refine occursIn_crlf_of_ends (fun cursor => ?_) text
  have here : pattern.ends ⟨cursor.crlf, []⟩ = [] ↔ pattern.ends ⟨cursor, []⟩ = [] := by
    have ends : pattern.ends ⟨cursor.crlf, []⟩ = _ := commutes ⟨cursor, []⟩
    rw [ends, List.map_eq_nil_iff]
  cases newline : cursor.atNewline with
  | true => simp [here, shuns ⟨cursor.closed, []⟩ (Cursor.atNewline_closed newline)]
  | false => simp [here, Cursor.closed_of_not newline]

/-- One place of a search, in both texts. It is passed over in both, or the search goes on behind
the same match. -/
theorem matchesFrom_cons_crlf {pattern : Pattern} (commutes : pattern.Commutes) {text : Text}
    {cursor : Cursor} (within : cursor.Within text) {rest rest' : List Cursor}
    (behind : ∀ last : Option Nat, pattern.matchesFrom (last.map text.shifted) rest' =
      (pattern.matchesFrom last rest).map Match.crlf) (last : Option Nat) :
    pattern.matchesFrom (last.map text.shifted) (cursor.crlf :: rest') =
      (pattern.matchesFrom last (cursor :: rest)).map Match.crlf := by
  have passed : ((last.map text.shifted).any fun stop => cursor.crlf.offset < stop) =
      last.any fun stop => cursor.offset < stop := by
    simp [Option.any_map, within.offset_crlf, text.shifted_lt_iff]
  have rests : last.map text.shifted = some cursor.crlf.offset ↔ last = some cursor.offset := by
    rw [within.offset_crlf]
    cases last <;> simp [text.shifted_inj]
  rw [matchesFrom, matchesFrom, passed, matchAt?_crlf commutes]
  split
  · exact behind last
  · cases matched : pattern.matchAt? cursor with
    | none => exact behind last
    | some found =>
      obtain ⟨-, within', -⟩ := within_of_matchAt? within matched
      have stop : found.crlf.stop = text.shifted found.stop := within'.offset_crlf
      have empty : found.crlf.stop = cursor.crlf.offset ↔ found.stop = cursor.offset := by
        rw [stop, within.offset_crlf, text.shifted_inj]
      have further := behind (some found.stop)
      simp only [Option.map_some, empty, rests]
      split
      · exact behind last
      · rw [List.map_cons, ← further, Option.map_some, stop]

/-- The search in the CRLF text, from a place on. The induction is on the text ahead; the place
between the two line ends adds nothing. -/
theorem matchesFrom_crlf {pattern : Pattern} (commutes : pattern.Commutes)
    (shuns : pattern.Shuns) {text : Text} {cursor : Cursor} (within : cursor.Within text)
    {ahead : Text} (sees : cursor.after = ahead) (last : Option Nat) :
    pattern.matchesFrom (last.map text.shifted) (cursor.crlf.onward ahead.crlf) =
      (pattern.matchesFrom last (cursor.onward ahead)).map Match.crlf := by
  induction ahead generalizing cursor last with
  | nil => exact matchesFrom_cons_crlf commutes within (fun _ => rfl) last
  | cons c rest ih =>
    have further := ih (within.pass sees) rfl
    by_cases newline : c = '\n'
    · subst newline
      rw [Cursor.crlf_pass_newline sees, Cursor.closed_of_newline sees] at further
      refine matchesFrom_cons_crlf commutes within (fun last => ?_) last
      -- Nothing matches between the carriage return and the newline.
      exact (matchesFrom_of_none (matchAt?_of_shuns shuns rfl) _ _).trans (further last)
    · rw [cursor.crlf_pass newline] at further
      rw [Text.crlf_cons newline]
      exact matchesFrom_cons_crlf commutes within further last

/-- A pattern that commutes and shuns newlines matches alike. -/
theorem allMatches_crlf {pattern : Pattern} (commutes : pattern.Commutes)
    (shuns : pattern.Shuns) (text : Text) :
    pattern.allMatches text.crlf = (pattern.allMatches text).map Match.crlf :=
  matchesFrom_crlf commutes shuns (.start text) rfl none

end Pattern

/-! ### Patterns that run to the end of a line -/

namespace Cursor.Within

variable {text : Text} {cursor place : Cursor}

/-- Behind the carriage return is one byte further. -/
theorem offset_closed (newline : cursor.atNewline = true) :
    cursor.closed.offset = cursor.crlf.offset + 1 := by
  obtain ⟨rest, ahead⟩ := atNewline_iff.mp newline
  rw [closed_of_newline ahead]
  rfl

/-- A newline takes two bytes in the CRLF text. -/
theorem offset_newline (within : place.Within text) (newline : place.atNewline = true) :
    text.shifted (place.offset + 1) = place.crlf.offset + 2 := by
  obtain ⟨rest, ahead⟩ := atNewline_iff.mp newline
  have behind := (within.pass ahead).offset_crlf
  rw [crlf_pass_newline ahead] at behind
  have moved : (place.closed.pass '\n' (Text.crlf rest)).offset = place.closed.offset + 1 := rfl
  rw [moved, offset_closed newline] at behind
  exact behind.symm

/-- A place behind a line's end is behind it in the CRLF text. -/
theorem offset_lt_closed (within : cursor.Within text) (within' : place.Within text)
    (behind : place.offset < cursor.offset) : place.closed.offset < cursor.crlf.offset := by
  cases newline : place.atNewline with
  | false =>
    rw [closed_of_not newline, within.offset_crlf, within'.offset_crlf]
    exact text.shifted_lt_iff.mpr behind
  | true =>
    have next := within'.offset_newline newline
    have order := mt (@Text.shifted_lt_iff text cursor.offset (place.offset + 1)).mp (by omega)
    rw [offset_closed newline, within.offset_crlf]
    omega

/-- The places behind carriage returns keep their order. -/
theorem offset_closed_lt (within : cursor.Within text) (within' : place.Within text)
    (ahead : cursor.offset < place.offset) : cursor.closed.offset < place.closed.offset := by
  have before := within'.offset_lt_closed within ahead
  have reached : place.crlf.offset ≤ place.closed.offset := by
    cases newline : place.atNewline with
    | false => exact Nat.le_of_eq (by rw [closed_of_not newline])
    | true => rw [offset_closed newline]; exact Nat.le_succ _
  omega

/-- A place compares with a line's end as in the CRLF text. -/
theorem compare_closed (within : cursor.Within text) (within' : place.Within text)
    (other : cursor.atNewline = false) :
    (cursor.crlf.offset < place.closed.offset ↔ cursor.offset < place.offset) ∧
      (place.closed.offset = cursor.crlf.offset ↔ place.offset = cursor.offset) := by
  rcases Nat.lt_trichotomy place.offset cursor.offset with behind | same | ahead
  · have := within.offset_lt_closed within' behind
    omega
  · obtain rfl := within'.eq_of_offset within same
    rw [closed_of_not other]
    omega
  · have := within.offset_closed_lt within' ahead
    rw [closed_of_not other] at this
    omega

end Cursor.Within

/-- How matches in the two texts go together that run to the end of a line. -/
structure Match.Closes (number : Nat) (found found' : Match) : Prop where
  start : found'.whole.start = found.whole.start.crlf
  stop : found'.whole.stop = found.whole.stop.closed
  ended : ∀ c ∈ found.whole.stop.after.head?, c = '\n'
  group : ∀ key, key ≠ 0 → key ≠ number →
    found'.group? key = (found.group? key).map Piece.crlf

namespace Pattern

/-- In front of a newline the pattern never matches, or always the empty stretch. -/
def Pauses (pattern : Pattern) : Prop :=
  (∀ cursor : Cursor, cursor.atNewline = true → pattern.matchAt? cursor = none) ∨
    ∀ cursor : Cursor, cursor.atNewline = true →
      ∃ found, pattern.matchAt? cursor = some found ∧ found.whole.stop = cursor

/-- At the same place, a pattern that prefers the end of a line matches in both texts or in none,
and up to the end in both. -/
theorem matchAt?_closes {number : Nat} {pattern : Pattern} (closes : pattern.Closes number)
    (cursor : Cursor) :
    Option.Rel (Match.Closes number) (pattern.matchAt? cursor)
      (pattern.matchAt? cursor.crlf) := by
  have ends := closes ⟨cursor, []⟩
  have start : Reading.crlf ⟨cursor, []⟩ = ⟨cursor.crlf, []⟩ := rfl
  rw [start] at ends
  rw [matchAt?, matchAt?]
  generalize (pattern.ends ⟨cursor, []⟩).head? = next at ends
  generalize (pattern.ends ⟨cursor.crlf, []⟩).head? = next' at ends
  cases ends with
  | none => exact .none
  | some closes =>
    refine .some ⟨rfl, closes.cursor, closes.ended, fun key positive other => ?_⟩
    obtain ⟨index, rfl⟩ := Nat.exists_eq_succ_of_ne_zero positive
    by_cases counted : index < pattern.groupCount
    · simpa [Match.group?, counted] using closes.groups (index + 1) other
    · simp [Match.group?, counted]

/-- Where the last match has stopped, in both texts. -/
inductive Stopped (text : Text) : Option Nat → Option Nat → Prop where
  | nowhere : Stopped text none none
  | somewhere (place : Cursor) (within : place.Within text) :
      Stopped text (some place.offset) (some place.closed.offset)

variable {number : Nat} {pattern : Pattern} {text : Text} {cursor : Cursor}
  {rest rest' : List Cursor} {last last' : Option Nat}

/-- One place that is not in front of a newline. It is passed over in both texts, or both searches
go on behind matches that belong together. -/
theorem forall₂_matchesFrom_cons (closes : pattern.Closes number) (within : cursor.Within text)
    (other : cursor.atNewline = false)
    (behind : ∀ last last', Stopped text last last' → List.Forall₂ (Match.Closes number)
      (pattern.matchesFrom last rest) (pattern.matchesFrom last' rest'))
    (stopped : Stopped text last last') :
    List.Forall₂ (Match.Closes number) (pattern.matchesFrom last (cursor :: rest))
      (pattern.matchesFrom last' (cursor.crlf :: rest')) := by
  have compare : (last'.any fun stop => cursor.crlf.offset < stop) =
        (last.any fun stop => cursor.offset < stop) ∧
      (last' = some cursor.crlf.offset ↔ last = some cursor.offset) := by
    cases stopped with
    | nowhere => simp
    | somewhere place within' => simp [within.compare_closed within' other]
  have matched := matchAt?_closes closes cursor
  rw [matchesFrom, matchesFrom, compare.1]
  split
  · exact behind last last' stopped
  · cases here : pattern.matchAt? cursor with
    | none =>
      rw [here] at matched
      generalize pattern.matchAt? cursor.crlf = there at matched
      cases matched
      exact behind last last' stopped
    | some found =>
      obtain ⟨-, within', -⟩ := within_of_matchAt? within here
      rw [here] at matched
      generalize pattern.matchAt? cursor.crlf = there at matched
      cases matched with
      | some closes =>
        rename_i found'
        have stop : found'.stop = found.whole.stop.closed.offset := by
          rw [Match.stop, closes.stop]
        have empty : found'.stop = cursor.crlf.offset ↔ found.stop = cursor.offset := by
          rw [stop]
          exact (within.compare_closed within' other).2
        simp only [empty, compare.2]
        split
        · exact behind last last' stopped
        · rw [stop]
          exact .cons closes (behind _ _ (.somewhere _ within'))

/-- One place in front of a newline, and the place between the carriage return and it. -/
theorem forall₂_matchesFrom_newline (closes : pattern.Closes number) (pauses : pattern.Pauses)
    (within : cursor.Within text) (newline : cursor.atNewline = true)
    (behind : ∀ last last', Stopped text last last' → List.Forall₂ (Match.Closes number)
      (pattern.matchesFrom last rest) (pattern.matchesFrom last' rest'))
    (stopped : Stopped text last last') :
    List.Forall₂ (Match.Closes number) (pattern.matchesFrom last (cursor :: rest))
      (pattern.matchesFrom last' (cursor.crlf :: cursor.closed :: rest')) := by
  have newline' : cursor.closed.atNewline = true := Cursor.atNewline_closed newline
  have moved := Cursor.Within.offset_closed newline
  have matched := matchAt?_closes closes cursor
  rcases pauses with never | always
  · -- Nothing matches at either place.
    rw [never cursor newline] at matched
    have never' : pattern.matchAt? cursor.crlf = none := by
      generalize pattern.matchAt? cursor.crlf = there at matched
      cases matched
      rfl
    rw [matchesFrom_of_none (never cursor newline), matchesFrom_of_none never',
      matchesFrom_of_none (never cursor.closed newline')]
    exact behind last last' stopped
  · obtain ⟨found, here, stays⟩ := always cursor newline
    obtain ⟨empty, between, stays'⟩ := always cursor.closed newline'
    have stop : found.stop = cursor.offset := by rw [Match.stop, stays]
    have rests : pattern.matchesFrom (some cursor.closed.offset) (cursor.closed :: rest') =
        pattern.matchesFrom (some cursor.closed.offset) rest' :=
      matchesFrom_of_stop between (by rw [Match.stop, stays']) rest'
    rw [here] at matched
    obtain ⟨found', there, mirrors⟩ : ∃ found', pattern.matchAt? cursor.crlf = some found' ∧
        Match.Closes number found found' := by
      generalize pattern.matchAt? cursor.crlf = there at matched
      cases matched with
      | some mirrors => exact ⟨_, rfl, mirrors⟩
    have stop' : found'.stop = cursor.closed.offset := by
      rw [Match.stop, mirrors.stop, stays]
    -- The match counts, unless the last one has stopped here or further on.
    have counts (ahead : (last.any fun stop => cursor.offset < stop) = false)
        (ahead' : (last'.any fun stop => cursor.crlf.offset < stop) = false)
        (apart : last ≠ some cursor.offset) :
        List.Forall₂ (Match.Closes number) (pattern.matchesFrom last (cursor :: rest))
          (pattern.matchesFrom last' (cursor.crlf :: cursor.closed :: rest')) := by
      rw [matchesFrom_of_some here ahead fun same => apart same.2,
        matchesFrom_of_some there ahead' fun same => by omega, stop, stop', rests]
      exact .cons mirrors (behind _ _ (.somewhere cursor within))
    cases stopped with
    | nowhere => exact counts rfl rfl (by simp)
    | somewhere place within' =>
      rcases Nat.lt_trichotomy place.offset cursor.offset with passed | same | ahead
      · have passed' := within.offset_lt_closed within' passed
        exact counts (by simp; omega) (by simp; omega) (by simp; omega)
      · obtain rfl := within'.eq_of_offset within same
        rw [matchesFrom_of_stop here stop, matchesFrom_of_lt (by simp; omega), rests]
        exact behind _ _ (.somewhere place within')
      · have ahead' := within.offset_closed_lt within' ahead
        rw [matchesFrom_of_lt (by simpa using ahead), matchesFrom_of_lt (by simp; omega),
          matchesFrom_of_lt (by simpa using ahead')]
        exact behind _ _ (.somewhere place within')

/-- The search for the end of a line, from a place on. The induction is on the text ahead, with the
last stops of both searches related. -/
theorem forall₂_matchesFrom (closes : pattern.Closes number) (pauses : pattern.Pauses)
    (within : cursor.Within text) {ahead : Text} (sees : cursor.after = ahead)
    (stopped : Stopped text last last') :
    List.Forall₂ (Match.Closes number) (pattern.matchesFrom last (cursor.onward ahead))
      (pattern.matchesFrom last' (cursor.crlf.onward ahead.crlf)) := by
  induction ahead generalizing cursor last last' with
  | nil =>
    exact forall₂_matchesFrom_cons closes within (by simp [Cursor.atNewline, sees])
      (fun _ _ _ => .nil) stopped
  | cons c rest ih =>
    have further (last last' : Option Nat) (stopped : Stopped text last last') :=
      ih (within.pass sees) rfl stopped
    by_cases newline : c = '\n'
    · subst newline
      rw [Cursor.crlf_pass_newline sees] at further
      have places : cursor.crlf.onward (Text.crlf ('\n' :: rest)) = cursor.crlf ::
          cursor.closed :: (cursor.closed.pass '\n' (Text.crlf rest)).onward
            (Text.crlf rest) := by
        rw [Cursor.closed_of_newline sees]
        rfl
      rw [places]
      exact forall₂_matchesFrom_newline closes pauses within
        (Cursor.atNewline_iff.mpr ⟨rest, sees⟩) further stopped
    · rw [cursor.crlf_pass newline] at further
      rw [Text.crlf_cons newline]
      exact forall₂_matchesFrom_cons closes within (by simp [Cursor.atNewline, sees, newline])
        further stopped

/-- The matches of a pattern that runs to the end of a line, in both texts. -/
theorem forall₂_allMatches (closes : pattern.Closes number) (pauses : pattern.Pauses)
    (text : Text) :
    List.Forall₂ (Match.Closes number) (pattern.allMatches text)
      (pattern.allMatches text.crlf) :=
  forall₂_matchesFrom closes pauses (.start text) rfl .nowhere

end Pattern

end ScriptCheck
