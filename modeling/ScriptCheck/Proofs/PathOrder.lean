import Mathlib.Data.List.Sort
import ScriptCheck.Path

/-!
# The order of paths

Paths are put in order by their steps, and of neighbours that take the same steps one is kept.
What comes out is in strict order. So it depends, up to the writing of the paths, only on which
steps are taken by some path, and neither on the order of the paths nor on how often one is
given.

The pieces of a path below a folder are those of the folder and then the names that lead on.
-/

namespace ScriptCheck.Path

/-! ### Steps in order -/

namespace Step

variable {left middle right : Step}

/-- A step comes before another by its rank, and then by its name. -/
theorem isBefore_iff : left.isBefore right = true ↔
    left.rank < right.rank ∨ left.rank = right.rank ∧ left.label < right.label := by
  simp [isBefore]

/-- No step comes before itself. -/
theorem isBefore_irrefl (step : Step) : ¬step.isBefore step = true := by
  rw [isBefore_iff]
  rintro (smaller | ⟨-, smaller⟩)
  · exact Nat.lt_irrefl _ smaller
  · exact String.lt_irrefl _ smaller

/-- The order of steps is transitive. -/
theorem isBefore_trans (first : left.isBefore middle = true)
    (second : middle.isBefore right = true) : left.isBefore right = true := by
  rw [isBefore_iff] at first second ⊢
  rcases first with smaller | ⟨same, smaller⟩
  · exact .inl (by omega)
  · rcases second with smaller' | ⟨same', smaller'⟩
    · exact .inl (by omega)
    · exact .inr ⟨by omega, String.lt_trans smaller smaller'⟩

/-- A step is known by its rank and its name. -/
theorem eq_of_rank_of_label (rank : left.rank = right.rank) (label : left.label = right.label) :
    left = right := by
  cases left <;> cases right <;> simp_all [Step.rank, Step.label, FileName.ext_iff]

/-- Of two steps that differ, one comes before the other. -/
theorem isBefore_or_isBefore (differ : left ≠ right) :
    left.isBefore right = true ∨ right.isBefore left = true := by
  rw [isBefore_iff, isBefore_iff]
  rcases Nat.lt_trichotomy left.rank right.rank with smaller | same | greater
  · exact .inl (.inl smaller)
  · have labels : left.label ≠ right.label := fun label => differ (eq_of_rank_of_label same label)
    rcases String.le_total left.label right.label with atMost | atMost
    · exact .inl (.inr ⟨same,
        String.not_le.mp (fun other => labels (String.le_antisymm atMost other))⟩)
    · exact .inr (.inr ⟨same.symm,
        String.not_le.mp (fun other => labels (String.le_antisymm other atMost))⟩)
  · exact .inr (.inl greater)

end Step

variable {left middle right : List Step}

/-- Of two lists of steps, one is at most the other. -/
theorem isAtMost_total (left right : List Step) : isAtMost left right || isAtMost right left := by
  induction left generalizing right with
  | nil => rfl
  | cons step left ih =>
    cases right with
    | nil => rfl
    | cons step' right =>
      by_cases same : step = step'
      · simpa [isAtMost, same, Step.isBefore_irrefl] using ih right
      · rcases Step.isBefore_or_isBefore same with before | before <;> simp [isAtMost, before]

/-- The order of lists of steps is transitive, by the first step at which they differ. -/
theorem isAtMost_trans (first : isAtMost left middle = true)
    (second : isAtMost middle right = true) : isAtMost left right = true := by
  induction left generalizing middle right with
  | nil => rfl
  | cons step left ih =>
    cases middle with
    | nil => cases first
    | cons step' middle =>
      cases right with
      | nil => cases second
      | cons step'' right =>
        simp only [isAtMost, Bool.or_eq_true, Bool.and_eq_true, beq_iff_eq] at first second ⊢
        rcases first with before | ⟨rfl, first⟩
        · rcases second with before' | ⟨rfl, -⟩
          · exact .inl (Step.isBefore_trans before before')
          · exact .inl before
        · rcases second with before' | ⟨rfl, second⟩
          · exact .inl before'
          · exact .inr ⟨rfl, ih first second⟩

/-- Lists of steps that are at most each other are the same, so that sorting by them puts repeats
side by side. -/
theorem isAtMost_antisymm (first : isAtMost left right = true)
    (second : isAtMost right left = true) : left = right := by
  induction left generalizing right with
  | nil =>
    cases right with
    | nil => rfl
    | cons => cases second
  | cons step left ih =>
    cases right with
    | nil => cases first
    | cons step' right =>
      simp only [isAtMost, Bool.or_eq_true, Bool.and_eq_true, beq_iff_eq] at first second
      rcases first with before | ⟨rfl, first⟩
      · rcases second with before' | ⟨rfl, -⟩
        · exact absurd (Step.isBefore_trans before before') (Step.isBefore_irrefl step)
        · exact absurd before (Step.isBefore_irrefl _)
      · rcases second with before' | ⟨-, second⟩
        · exact absurd before' (Step.isBefore_irrefl _)
        · rw [ih first second]

/-! ### Paths in order -/

/-- Some steps come before others. -/
def Precedes (left right : List Step) : Prop := isAtMost left right = true ∧ left ≠ right

/-- Of two lists of steps, not both come before the other. -/
theorem Precedes.asymm (before : Precedes left right) : ¬Precedes right left :=
  fun behind => before.2 (isAtMost_antisymm before.1 behind.1)

/-- Items in strict order are known when their members are. -/
theorem eq_of_pairwise_precedes {α : Type} (key : α → List Step) {items items' : List α}
    (ordered : items.Pairwise fun left right => Precedes (key left) (key right))
    (ordered' : items'.Pairwise fun left right => Precedes (key left) (key right))
    (same : ∀ item, item ∈ items ↔ item ∈ items') : items = items' := by
  let order (left right : α) : Prop := Precedes (key left) (key right)
  have antisymm : Std.Antisymm order := ⟨fun _ _ before behind => absurd behind before.asymm⟩
  have irrefl : Std.Irrefl order := ⟨fun _ before => before.2 rfl⟩
  exact ordered.eq_of_mem_iff ordered' same

section Arrange

variable {path previous : String} {paths : List String}

/-- What is kept behind a path was there before. -/
theorem mem_of_mem_dropRepeatsOf (member : path ∈ dropRepeatsOf previous paths) :
    path ∈ paths := by
  fun_induction dropRepeatsOf previous paths with
  | case1 => exact member
  | case2 previous other rest same ih => exact .tail _ (ih member)
  | case3 previous other rest differ ih =>
    rcases List.mem_cons.mp member with rfl | member
    · exact .head _
    · exact .tail _ (ih member)

/-- Every item has the path of one that is kept. -/
theorem exists_mem_dropRepeatsOf (member : path ∈ paths) :
    ∃ kept ∈ previous :: dropRepeatsOf previous paths, steps kept = steps path := by
  fun_induction dropRepeatsOf previous paths with
  | case1 => simp at member
  | case2 previous other rest same ih =>
    rcases List.mem_cons.mp member with rfl | member
    · exact ⟨previous, .head _, same⟩
    · exact ih member
  | case3 previous other rest differ ih =>
    rcases List.mem_cons.mp member with rfl | member
    · exact ⟨path, .tail _ (.head _), rfl⟩
    · obtain ⟨kept, listed, same⟩ := ih member
      exact ⟨kept, .tail _ listed, same⟩

/-- Of paths in order, those that are kept are in strict order, as repeats stand side by side and
are left out. -/
theorem pairwise_dropRepeatsOf (ordered : (previous :: paths).Pairwise fun left right =>
      isAtMost (steps left) (steps right) = true) :
    (previous :: dropRepeatsOf previous paths).Pairwise fun left right =>
      Precedes (steps left) (steps right) := by
  fun_induction dropRepeatsOf previous paths with
  | case1 => exact List.pairwise_singleton _ _
  | case2 previous other rest same ih =>
    exact ih (ordered.sublist (by simp))
  | case3 previous other rest differ ih =>
    obtain ⟨least, ordered'⟩ := List.pairwise_cons.mp ordered
    have further := ih ordered'
    -- What is kept behind the next path is at least that path, which differs from the last one.
    refine List.pairwise_cons.mpr ⟨?_, further⟩
    intro kept member
    rcases List.mem_cons.mp member with rfl | member
    · exact ⟨least _ (.head _), differ⟩
    · have behind := (List.pairwise_cons.mp further).1 kept member
      refine ⟨least kept (.tail _ (mem_of_mem_dropRepeatsOf member)), ?_⟩
      intro same
      rw [← same] at behind
      exact differ (isAtMost_antisymm (least other (.head _)) behind.1)

/-- What is left without repeats was there before. -/
theorem mem_of_mem_dropRepeats (member : path ∈ dropRepeats paths) : path ∈ paths := by
  cases paths with
  | nil => exact member
  | cons first rest =>
    rcases List.mem_cons.mp member with rfl | member
    · exact .head _
    · exact .tail _ (mem_of_mem_dropRepeatsOf member)

/-- Every path takes the steps of one that is left. -/
theorem exists_mem_dropRepeats (member : path ∈ paths) :
    ∃ kept ∈ dropRepeats paths, steps kept = steps path := by
  cases paths with
  | nil => cases member
  | cons first rest =>
    rcases List.mem_cons.mp member with rfl | member
    · exact ⟨path, .head _, rfl⟩
    · exact exists_mem_dropRepeatsOf member

/-- What is arranged is in strict order: it is sorted by steps first, and then repeats are left
out. -/
theorem pairwise_arrange (paths : List String) :
    (arrange paths).Pairwise fun left right => Precedes (steps left) (steps right) := by
  let order (left right : String) : Bool := isAtMost (steps left) (steps right)
  have trans (left middle right : String) (first : order left middle = true)
      (second : order middle right = true) : order left right = true :=
    isAtMost_trans first second
  have total (left right : String) : (order left right || order right left) = true :=
    isAtMost_total _ _
  have ordered := List.pairwise_mergeSort trans total paths
  show (dropRepeats (paths.mergeSort order)).Pairwise _
  cases sorted : paths.mergeSort order with
  | nil => exact .nil
  | cons first rest =>
    rw [sorted] at ordered
    exact pairwise_dropRepeatsOf ordered

/-- What is arranged was there before. -/
theorem mem_of_mem_arrange (member : path ∈ arrange paths) : path ∈ paths :=
  List.mem_mergeSort.mp (mem_of_mem_dropRepeats member)

/-- Nothing is lost in arranging, up to the writing of paths. -/
theorem exists_mem_arrange (member : path ∈ paths) :
    ∃ kept ∈ arrange paths, steps kept = steps path :=
  exists_mem_dropRepeats (List.mem_mergeSort.mpr member)

end Arrange

/-! ### Paths below a folder -/

/-- A piece that does not stand in front leads up or to what has a name. -/
theorem step?_eq_some {piece : String} {step : Step} (taken : step? piece = some step) :
    step = .above ∨ ∃ name, piece = FileName.text name ∧ step = .name name := by
  rw [step?] at taken
  split at taken
  · cases taken
    exact .inl rfl
  · obtain ⟨name, proper, rfl⟩ := Option.map_eq_some_iff.mp taken
    rw [FileName.ofText?] at proper
    split at proper
    · cases proper
      exact .inr ⟨_, rfl, rfl⟩
    · cases proper

/-- A name, as a piece of a path, leads to what has that name. -/
@[simp]
theorem step?_text (name : FileName) : step? name.text = some (.name name) := by
  obtain ⟨text, proper⟩ := name
  have other : text ≠ ".." := by
    rintro rfl
    exact absurd proper (by decide)
  rw [step?, if_neg other, FileName.ofText?, dif_pos proper]
  rfl

/-- A name is one piece of a path. -/
theorem pieces_text (name : FileName) : pieces name.text = [name.text] := by
  have whole : '/' ∉ name.text.toList := by
    have proper := name.proper
    simp only [isFileName, Bool.and_eq_true, Bool.not_eq_true'] at proper
    simpa using proper.2
  rw [pieces, List.splitOn_eq_singleton whole]
  simp

/-- A path has at least one piece, also the empty path. -/
theorem pieces_ne_nil (path : String) : pieces path ≠ [] := by
  simp [pieces, List.splitOn_ne_nil]

/-- A path is split at a slash wherever it stands. -/
theorem pieces_append_slash (left right : String) :
    pieces (left ++ "/" ++ right) = pieces left ++ pieces right := by
  have text : (left ++ "/" ++ right).toList = left.toList ++ '/' :: right.toList := by simp
  have split : (left.toList ++ '/' :: right.toList).splitOn '/' =
      left.toList.splitOn '/' ++ right.toList.splitOn '/' :=
    List.splitOnP_append_cons _ _ (beq_self_eq_true '/')
  rw [pieces, text, split, List.map_append]
  rfl

/-- Names that are joined with slashes are the pieces of the text. -/
theorem pieces_intercalate {names : Place} (present : names ≠ []) :
    pieces ("/".intercalate (names.map FileName.text)) = names.map FileName.text := by
  induction names with
  | nil => exact absurd rfl present
  | cons name names ih =>
    cases names with
    | nil => rw [List.map_singleton, String.intercalate_singleton, pieces_text]
    | cons next names =>
      rw [List.map_cons, List.map_cons, String.intercalate_cons_cons, pieces_append_slash,
        pieces_text, ← List.map_cons, ih (by simp)]
      rfl

/-- The pieces of a path below a folder are those of the folder and then the names. -/
theorem exists_pieces_join (folder : String) {names : Place} (present : names ≠ []) :
    ∃ front, (pieces folder = front ∨ pieces folder = front ++ [""]) ∧
      pieces (join folder names) = front ++ names.map FileName.text := by
  by_cases slash : folder.toList.getLast? = some '/'
  · obtain ⟨front, text⟩ := List.getLast?_eq_some_iff.mp slash
    have folder_eq : folder = String.ofList front ++ "/" ++ "" :=
      String.toList_inj.mp (by simp [text])
    refine ⟨pieces (String.ofList front), .inr ?_, ?_⟩
    · rw [folder_eq, pieces_append_slash]
      rfl
    · rw [join, if_pos slash, folder_eq, String.append_empty, pieces_append_slash,
        pieces_intercalate present]
  · refine ⟨pieces folder, .inl rfl, ?_⟩
    rw [join, if_neg slash, pieces_append_slash, pieces_intercalate present]

/-- The path of something in a folder goes on behind the folder's. -/
theorem exists_join_eq_append (folder : String) (names : Place) :
    ∃ rest, join folder names = folder ++ rest := by
  rw [join]
  split
  · exact ⟨_, rfl⟩
  · exact ⟨_, String.append_assoc⟩

/-- The path of something in a folder is not empty if the folder's is not. -/
theorem join_ne_empty {folder : String} (written : folder ≠ "") (names : Place) :
    join folder names ≠ "" := by
  obtain ⟨rest, joined⟩ := exists_join_eq_append folder names
  rw [joined, Ne, String.append_eq_empty_iff]
  exact fun empty => written empty.1

/-- A path below a folder starts where the folder's path does. -/
theorem isAbsolute_join {folder : String} (written : folder ≠ "") (names : Place) :
    isAbsolute (join folder names) = isAbsolute folder := by
  obtain ⟨rest, joined⟩ := exists_join_eq_append folder names
  have front : folder.toList ≠ [] := by simpa using written
  rw [joined, isAbsolute, isAbsolute, String.toList_append, List.head?_append_of_ne_nil _ front]

end ScriptCheck.Path
