import ScriptCheck.Proofs.Matching

/-!
# What fits is found

Every end of a pattern lies behind a stretch that the pattern fits. Here is the converse:
where a stretch that the pattern fits lies ahead, one of the ends lies behind it, so a
search at that place finds a match. It need not be that stretch, since an end that is
preferred may lie elsewhere.

The one case with an argument is a repetition. It does not go on behind a round that consumes
nothing, and its rounds are bounded by the characters ahead. A stretch of rounds fits without
its empty ones too, and each of the others takes a character.
-/

namespace ScriptCheck.Pattern

/-- A step comes to an end behind every stretch ahead that fits. -/
def Reaches (fits : Text → Text → Text → List Capture → Prop)
    (step : Reading → List Reading) : Prop :=
  ∀ reading body rest captures, reading.cursor.after = body ++ rest →
    fits reading.cursor.before body rest captures →
    ∃ next ∈ step reading, reading.cursor.Spans next.cursor body

/-- A run can stop behind any of its characters. -/
theorem exists_mem_stops {accepts : Char → Bool} {cursor : Cursor} (body rest : Text)
    (sees : cursor.after = body ++ rest) (accepted : ∀ c ∈ body, accepts c = true) :
    ∃ stop ∈ stops accepts cursor (body ++ rest), cursor.Spans stop body := by
  induction body generalizing cursor with
  | nil => exact ⟨cursor, by cases rest <;> simp [stops], .refl cursor⟩
  | cons c body ih =>
    obtain ⟨first, others⟩ := List.forall_mem_cons.mp accepted
    obtain ⟨stop, listed, spans⟩ := ih
      (show (cursor.pass c (body ++ rest)).after = body ++ rest from rfl) others
    refine ⟨stop, ?_, (Cursor.Spans.pass sees).trans spans⟩
    rw [List.cons_append, stops, if_pos first]
    exact List.mem_cons_of_mem _ listed

section Rounds

variable {step : Reading → List Reading} {greedy : Bool} {reading middle next : Reading}

/-- What rounds reach behind a first one is reached, one round on. -/
theorem mem_roundEnds_succ {bound : Nat} (stepped : middle ∈ step reading)
    (further : reading.cursor.offset < middle.cursor.offset)
    (reached : next ∈ roundEnds step greedy bound middle) :
    next ∈ roundEnds step greedy (bound + 1) reading := by
  have listed : next ∈ (step reading).flatMap fun next =>
      if reading.cursor.offset < next.cursor.offset then roundEnds step greedy bound next
      else [] :=
    List.mem_flatMap.mpr ⟨middle, stepped, by rwa [if_pos further]⟩
  rw [roundEnds]
  cases greedy with
  | true => exact List.mem_append_left _ listed
  | false => exact List.mem_cons_of_mem _ listed

/-- Further rounds of a step that reaches what fits reach any number of stretches that fit. -/
theorem exists_mem_roundEnds (greedy : Bool) {fits : Text → Text → Text → List Capture → Prop}
    (reaches : Reaches fits step) {before body rest : Text} {captures : List Capture}
    (rounds : FitsRounds fits before body rest captures) {bound : Nat}
    (enough : body.length ≤ bound) (sees : reading.cursor.after = body ++ rest)
    (behind : reading.cursor.before = before) :
    ∃ next ∈ roundEnds step greedy bound reading, reading.cursor.Spans next.cursor body := by
  induction rounds generalizing bound reading with
  | done => exact ⟨reading, mem_roundEnds_self _ _ _ _, .refl _⟩
  | @more before body others after captures later first further ih =>
    cases body with
    | nil => exact ih enough sees behind
    | cons c body =>
      subst behind
      rw [List.append_assoc] at sees
      obtain ⟨middle, stepped, spans⟩ := reaches reading _ _ _ sees first
      have ahead : middle.cursor.after = others ++ after :=
        List.append_cancel_left (spans.ahead.symm.trans sees)
      cases bound with
      | zero => exact absurd enough (by simp)
      | succ bound =>
        have enough' : others.length ≤ bound := by
          simp only [List.cons_append, List.length_cons, List.length_append] at enough
          omega
        obtain ⟨next, reached, spans'⟩ := ih enough' ahead spans.behind
        have moves := spans.offset_lt_iff.mpr (List.cons_ne_nil c body)
        exact ⟨next, mem_roundEnds_succ stepped moves reached, spans.trans spans'⟩

end Rounds

/-- Rounds over a stretch that is not empty start with such a round. -/
theorem FitsRounds.exists_first {fits : Text → Text → Text → List Capture → Prop}
    {before body after : Text} {captures : List Capture}
    (rounds : FitsRounds fits before body after captures) (present : body ≠ []) :
    ∃ front back earlier later, front ≠ [] ∧ body = front ++ back ∧
      fits before front (back ++ after) earlier ∧
      FitsRounds fits (front.reverse ++ before) back after later := by
  induction rounds with
  | done => exact absurd rfl present
  | @more before body others after captures later first further ih =>
    by_cases empty : body = []
    · subst empty
      exact ih present
    · exact ⟨body, others, captures, later, empty, rfl, first, further⟩

/-- A pattern has an end behind every stretch ahead that it fits. The induction follows the pattern,
and rounds are taken as long as they consume. -/
theorem reaches_ends (pattern : Pattern) : Reaches pattern.Fits pattern.ends := by
  induction pattern with
  | empty =>
    rintro reading body rest captures - ⟨rfl, -⟩
    exact ⟨reading, by simp [ends], .refl _⟩
  | char accepts =>
    rintro reading body rest captures sees ⟨⟨c, accepted, rfl⟩, -⟩
    have ahead : reading.cursor.after = c :: rest := sees
    exact ⟨{ reading with cursor := reading.cursor.pass c rest },
      by simp [ends, ahead, accepted], .pass ahead⟩
  | run greedy accepts =>
    rintro reading body rest captures sees ⟨accepted, -⟩
    obtain ⟨stop, listed, spans⟩ := exists_mem_stops body rest sees accepted
    refine ⟨{ reading with cursor := stop }, ?_, spans⟩
    simp only [ends, sees]
    exact List.mem_map.mpr ⟨stop, by cases greedy <;> simpa using listed, rfl⟩
  | anchor condition =>
    rintro reading body rest captures sees ⟨holds, rfl, -⟩
    have here : condition.holds reading.cursor = true := by
      rw [Anchor.holds_eq, sees]
      exact holds
    exact ⟨reading, by simp [ends, here], .refl _⟩
  | seq first second firstReaches secondReaches =>
    rintro reading body rest captures sees ⟨front, back, earlier, later, rfl, -, fits, fits'⟩
    rw [List.append_assoc] at sees
    obtain ⟨middle, reached, spans⟩ := firstReaches reading _ _ _ sees fits
    have ahead : middle.cursor.after = back ++ rest :=
      List.append_cancel_left (spans.ahead.symm.trans sees)
    rw [← spans.behind] at fits'
    obtain ⟨next, reached', spans'⟩ := secondReaches middle _ _ _ ahead fits'
    exact ⟨next, List.mem_flatMap.mpr ⟨middle, reached, reached'⟩, spans.trans spans'⟩
  | either first second firstReaches secondReaches =>
    rintro reading body rest captures sees (fits | fits)
    · obtain ⟨next, reached, spans⟩ := firstReaches reading _ _ _ sees fits
      exact ⟨next, List.mem_append_left _ reached, spans⟩
    · obtain ⟨next, reached, spans⟩ := secondReaches reading _ _ _ sees fits
      exact ⟨next, List.mem_append_right _ reached, spans⟩
  | rounds greedy round roundReaches =>
    rintro reading body rest captures sees ⟨front, back, earlier, later, rfl, -, fits, fits'⟩
    by_cases empty : front ++ back = []
    · obtain ⟨rfl, rfl⟩ := List.append_eq_nil_iff.mp empty
      obtain ⟨middle, first, spans⟩ := roundReaches reading _ _ _ sees fits
      have stays : ¬reading.cursor.offset < middle.cursor.offset := by simp [spans.offset_eq]
      refine ⟨middle, ?_, spans⟩
      rw [ends]
      exact List.mem_flatMap.mpr ⟨middle, first, by simp [stays]⟩
    · -- The first round may be empty. Then one further on takes its place.
      obtain ⟨front, back, earlier, later, present, same, fits, further⟩ :=
        FitsRounds.exists_first (.more fits fits') empty
      rw [same, List.append_assoc] at sees
      obtain ⟨middle, first, spans⟩ := roundReaches reading _ _ _ sees fits
      have ahead : middle.cursor.after = back ++ rest :=
        List.append_cancel_left (spans.ahead.symm.trans sees)
      rw [← spans.behind] at further
      obtain ⟨next, reached, spans'⟩ := exists_mem_roundEnds greedy roundReaches further
        (by simp [ahead] : back.length ≤ middle.cursor.after.length) ahead rfl
      refine ⟨next, ?_, by rw [same]; exact spans.trans spans'⟩
      rw [ends]
      exact List.mem_flatMap.mpr ⟨middle, first, by rwa [if_pos (spans.offset_lt_iff.mpr present)]⟩
  | group number inner innerReaches =>
    rintro reading body rest captures sees ⟨inside, -, fits⟩
    obtain ⟨next, reached, spans⟩ := innerReaches reading _ _ _ sees fits
    exact ⟨_, List.mem_map_of_mem reached, spans⟩

/-- A pattern matches at a place with a stretch ahead that it fits. -/
theorem exists_matchAt?_of_fits {pattern : Pattern} {cursor : Cursor} {body rest : Text}
    {captures : List Capture} (sees : cursor.after = body ++ rest)
    (fits : pattern.Fits cursor.before body rest captures) :
    ∃ found, pattern.matchAt? cursor = some found := by
  obtain ⟨next, reached, -⟩ := pattern.reaches_ends ⟨cursor, []⟩ _ _ _ sees fits
  cases ends : pattern.ends ⟨cursor, []⟩ with
  | nil => simp [ends] at reached
  | cons first others => exact ⟨_, by rw [matchAt?, ends]; rfl⟩

end ScriptCheck.Pattern
