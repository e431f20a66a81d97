import ScriptCheck.Proofs.Fitting
import ScriptCheck.Proofs.LineSearch

/-!
# Where a pattern occurs

A search finds something exactly when the pattern fits some stretch of the text. Whether a
pattern occurs in a text, and whether the list of its matches is empty, can so be told from
the stretches that it fits, without following the search.
-/

namespace ScriptCheck

/-- A text has one front of accepted characters that nothing accepted follows. -/
theorem Text.run_unique {accepts : Char → Bool} {run rest run' rest' : Text}
    (same : run ++ rest = run' ++ rest') (all : ∀ c ∈ run, accepts c = true)
    (all' : ∀ c ∈ run', accepts c = true) (ends : rest.head?.any accepts = false)
    (ends' : rest'.head?.any accepts = false) : run = run' ∧ rest = rest' := by
  have taken {run rest : Text} (all : ∀ c ∈ run, accepts c = true)
      (ends : rest.head?.any accepts = false) : (run ++ rest).takeWhile accepts = run := by
    rw [List.takeWhile_append_of_pos all]
    cases rest with
    | nil => simp
    | cons c rest =>
      have sharp : accepts c = false := ends
      simp [sharp]
  have runs : run = run' := by rw [← taken all ends, same, taken all' ends']
  subst runs
  exact ⟨rfl, List.append_cancel_left same⟩

namespace Pattern

variable {pattern : Pattern} {text : Text}

/-- Some place of a text has a match exactly when the pattern fits a stretch of the text. -/
theorem exists_matchAt?_iff :
    (∃ cursor ∈ Cursor.all text, ∃ found, pattern.matchAt? cursor = some found) ↔
      ∃ left body right captures, text = left ++ body ++ right ∧
        pattern.Fits left.reverse body right captures := by
  constructor
  · rintro ⟨cursor, listed, found, matched⟩
    obtain ⟨-, left, right, captures, occurs⟩ := occurs_of_matchAt? listed matched
    exact ⟨left, found.body, right, captures, occurs.whole, occurs.fits⟩
  · rintro ⟨left, body, right, captures, rfl, fits⟩
    have within := Cursor.within_between left (body ++ right)
    rw [← List.append_assoc] at within
    exact ⟨_, within.mem_all, exists_matchAt?_of_fits rfl fits⟩

/-- A pattern occurs in a text exactly if it fits a stretch of it. -/
theorem occursIn_iff :
    pattern.occursIn text = true ↔
      ∃ left body right captures, text = left ++ body ++ right ∧
        pattern.Fits left.reverse body right captures := by
  rw [← exists_matchAt?_iff, occursIn, firstMatch?, List.findSome?_isSome_iff]
  simp [Option.isSome_iff_exists]

/-- A search without a match has tried all places in vain. -/
theorem exists_mem_allMatches_iff :
    (∃ found, found ∈ pattern.allMatches text) ↔
      ∃ left body right captures, text = left ++ body ++ right ∧
        pattern.Fits left.reverse body right captures := by
  rw [← exists_matchAt?_iff, allMatches]
  induction Cursor.all text with
  | nil => simp [matchesFrom]
  | cons cursor rest ih =>
    cases matched : pattern.matchAt? cursor with
    | none => simp [matchesFrom_of_none matched, ih, matched]
    | some found =>
      rw [matchesFrom_of_some matched rfl (by simp)]
      simp [matched]

/-- A search finds a match where the pattern fits, if it fits no stretch that starts further
ahead and reaches over that place. -/
theorem exists_mem_allMatches_of_clear {left body right : Text} {captures : List Capture}
    (fits : pattern.Fits left.reverse body right captures)
    (never : ∀ before after captures, ¬pattern.Fits before [] after captures)
    (clear : ∀ left' body' right' captures', left ++ body ++ right = left' ++ body' ++ right' →
      pattern.Fits left'.reverse body' right' captures' → left'.width < left.width →
      (left' ++ body').width ≤ left.width) :
    ∃ found ∈ pattern.allMatches (left ++ body ++ right), found.start = left.width := by
  have within := Cursor.within_between left (body ++ right)
  rw [← List.append_assoc] at within
  have offset : (Cursor.between left (body ++ right)).offset = left.width := by
    rw [Cursor.Within.offset_eq, Cursor.between, List.reverse_reverse]
  obtain ⟨found, matched⟩ :=
    @exists_matchAt?_of_fits pattern (.between left (body ++ right)) body right captures rfl fits
  have start : found.start = left.width := (start_of_matchAt? matched).trans offset
  have beyond : found.start < found.stop := by
    obtain ⟨-, _, _, _, occurs⟩ := occurs_of_matchAt? within.mem_all matched
    have present : found.body ≠ [] := by
      intro empty
      exact never _ _ _ (empty ▸ occurs.fits)
    have wide := Nat.pos_of_ne_zero (mt (Text.width_eq_zero_iff _).mp present)
    have first := occurs.start_eq
    have last := occurs.stop_eq
    omega
  refine ⟨found, ?_, start⟩
  refine mem_matchesFrom_of_clear (Cursor.pairwise_onward _ _).1 within.mem_all matched ?_ (by simp)
  intro place listed before earlier matched'
  obtain ⟨same, _, _, _, occurs⟩ := occurs_of_matchAt? listed matched'
  have first := occurs.start_eq
  have place' := start_of_matchAt? matched'
  have stops := clear _ _ _ _ occurs.whole occurs.fits (by omega)
  have last := occurs.stop_eq
  rw [Text.width_append] at stops
  omega

/-- A search whose matches all start at one place has one match at most. -/
theorem allMatches_eq_singleton {found : Match} (member : found ∈ pattern.allMatches text)
    (only : ∀ other ∈ pattern.allMatches text, other.start = found.start) :
    pattern.allMatches text = [found] := by
  have ordered := pattern.pairwise_allMatches text
  revert member only ordered
  rcases pattern.allMatches text with - | ⟨first, - | ⟨second, others⟩⟩
  · simp
  · rintro member - -
    simpa [eq_comm] using member
  · intro _ only ordered
    have before := (List.pairwise_cons.mp ordered).1 second (.head _)
    rw [only first (by simp), only second (by simp)] at before
    exact absurd before (Nat.lt_irrefl _)

end Pattern

/-- The search for a parameter asks for both ends of what it searches, so it finds a name only where
nothing else stands, apart from the dots that gather the rest of the arguments. -/
theorem Call.occursIn_parameterNamed {name parameter : Text} :
    (parameterNamed name).occursIn parameter = true ↔
      parameter = name ∨ parameter = "...".toList ++ name := by
  rw [Pattern.occursIn_iff]
  constructor
  · rintro ⟨left, body, right, captures, rfl, fits⟩
    obtain ⟨_, _, _, _, rfl, -, ⟨starts, rfl, -⟩, fits₁⟩ := Pattern.fits_sequence_cons.mp fits
    obtain ⟨dots, _, _, _, rfl, -, spread, fits₂⟩ := Pattern.fits_sequence_cons.mp fits₁
    obtain ⟨_, rfl, ends, rfl, -⟩ := fits₂.pass_word
    obtain rfl : left = [] := by simpa [Anchor.holdsBetween] using starts
    obtain rfl : right = [] := by simpa [Anchor.holdsBetween] using ends
    rcases spread with dotted | ⟨rfl, -⟩
    · obtain ⟨rfl, -⟩ := Pattern.fits_lit.mp dotted
      exact .inr (by simp)
    · exact .inl (by simp)
  · intro whole
    obtain ⟨dots, spread, rfl⟩ : ∃ dots, (Pattern.optional (.lit "...")).Fits [] dots name [] ∧
        parameter = dots ++ name := by
      rcases whole with rfl | rfl
      · exact ⟨[], .inr ⟨rfl, rfl⟩, rfl⟩
      · exact ⟨_, .inl (Pattern.fits_lit.mpr ⟨rfl, rfl⟩), rfl⟩
    refine ⟨[], dots ++ name, [], [], by simp, ?_⟩
    refine Pattern.fits_sequence_cons.mpr ⟨[], dots ++ name, [], [], rfl, rfl,
      ⟨rfl, rfl, rfl⟩, ?_⟩
    refine Pattern.fits_sequence_cons.mpr ⟨dots, name, [], [], rfl, rfl, by simpa using spread, ?_⟩
    exact Pattern.fits_sequence_cons.mpr ⟨name, [], [], [], by simp, rfl,
      Pattern.fits_word.mpr ⟨rfl, rfl⟩, rfl, rfl, rfl⟩

end ScriptCheck
