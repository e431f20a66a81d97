import Mathlib.Data.List.SplitBy
import ScriptCheck.Proofs.Cut
import ScriptCheck.Text.WordChar

/-!
# The words of a text

A text falls into runs, of word characters and of other characters in turn. A whole word
is a stretch of word characters with no word character on either side, and these are
exactly the runs of word characters. Since runs follow one another, two whole words of a
text are the same one, or one ends before the other starts.
-/

namespace ScriptCheck.Text

/-- Whether a text starts with a word character. -/
def startsWord (text : Text) : Bool := text.head?.any isWordChar

/-- The longest stretches of word characters and of other characters, in turn. -/
def runs (text : Text) : List Text := text.splitBy fun c d => isWordChar c == isWordChar d

/-! ### What runs are -/

/-- A stretch of characters of one kind. -/
structure IsRun (run : Text) : Prop where
  present : run ≠ []
  alike : ∀ c ∈ run, isWordChar c = run.startsWord

/-- A text of one kind of characters starts with that kind. -/
theorem startsWord_of_forall {text : Text} {kind : Bool} (present : text ≠ [])
    (alike : ∀ c ∈ text, isWordChar c = kind) : text.startsWord = kind := by
  obtain ⟨c, rest, rfl⟩ := List.exists_cons_of_ne_nil present
  exact alike c (.head _)

/-- A text starts no word if it is empty or starts with another. -/
theorem startsWord_eq_false_iff (text : Text) :
    text.startsWord = false ↔ ∀ c ∈ text.head?, isWordChar c = false := by
  cases text <;> simp [startsWord]

/-- A text of one kind of characters is a run, unless empty. -/
theorem isRun_of_forall {run : Text} {kind : Bool} (present : run ≠ [])
    (alike : ∀ c ∈ run, isWordChar c = kind) : run.IsRun :=
  ⟨present, startsWord_of_forall present alike ▸ alike⟩

/-- A run is a text in which neighbours are of the same kind, which is how the library cuts a text
into runs. -/
theorem isRun_iff (run : Text) :
    run.IsRun ↔ run ≠ [] ∧ run.IsChain fun c d => (isWordChar c == isWordChar d) = true := by
  constructor
  · intro isRun
    refine ⟨isRun.present, (List.pairwise_of_forall_mem_list ?_).isChain⟩
    intro c listed d listed'
    rw [isRun.alike c listed, isRun.alike d listed', beq_self_eq_true]
  · rintro ⟨present, chain⟩
    obtain ⟨first, rest, rfl⟩ := List.exists_cons_of_ne_nil present
    have alike : ∀ c ∈ first :: rest, isWordChar c = isWordChar first := by
      clear present
      induction rest generalizing first with
      | nil => simp
      | cons second rest ih =>
        obtain ⟨same, chain⟩ := List.isChain_cons_cons.mp chain
        have others := ih second chain
        rw [← beq_iff_eq.mp same] at others
        exact List.forall_mem_cons.mpr ⟨rfl, others⟩
    exact isRun_of_forall present alike

/-- Where two runs meet, one ends and the other starts a word. -/
theorem meets_iff {run next : Text} (isRun : run.IsRun) (isRun' : next.IsRun) :
    (∃ (present : run ≠ []) (present' : next ≠ []),
        (isWordChar (run.getLast present) == isWordChar (next.head present')) = false) ↔
      run.startsWord ≠ next.startsWord := by
  rw [exists_prop_of_true isRun.present, exists_prop_of_true isRun'.present,
    isRun.alike _ (List.getLast_mem _), isRun'.alike _ (List.head_mem _), beq_eq_false_iff_ne]

/-- The runs of a text are the one way to cut it into stretches of one kind whose kinds
alternate. -/
theorem runs_eq_iff {text : Text} {runs : List Text} :
    text.runs = runs ↔ text = runs.flatten ∧ (∀ run ∈ runs, run.IsRun) ∧
      runs.IsChain fun run next => run.startsWord ≠ next.startsWord := by
  rw [Text.runs, List.splitBy_eq_iff]
  refine and_congr_right fun _ => ?_
  constructor
  · rintro ⟨present, chains, meets⟩
    have isRun : ∀ run ∈ runs, run.IsRun := fun run listed =>
      (isRun_iff run).mpr ⟨fun empty => present (empty ▸ listed), chains run listed⟩
    exact ⟨isRun, meets.imp_of_mem_imp fun run next listed listed' =>
      (meets_iff (isRun run listed) (isRun next listed')).mp⟩
  · rintro ⟨isRun, alternate⟩
    refine ⟨fun listed => (isRun [] listed).present rfl,
      fun run listed => ((isRun_iff run).mp (isRun run listed)).2, ?_⟩
    exact alternate.imp_of_mem_imp fun run next listed listed' =>
      (meets_iff (isRun run listed) (isRun next listed')).mpr

/-- The runs of a text, in a row, are the text. -/
@[simp] theorem flatten_runs (text : Text) : text.runs.flatten = text :=
  List.flatten_splitBy _ text

/-- Two runs in the same list are the same one, or one ends before the other starts. -/
theorem cases_of_append {before before' after after' : List Text} {run run' : Text}
    (same : before ++ run :: after = before' ++ run' :: after') :
    (before = before' ∧ run = run') ∨ width (before.flatten ++ run) ≤ width before'.flatten ∨
      width (before'.flatten ++ run') ≤ width before.flatten := by
  have ends (before gap : List Text) (run : Text) :
      width (before.flatten ++ run) ≤ width (before ++ run :: gap).flatten := by
    rw [List.flatten_append, List.flatten_cons, ← List.append_assoc, width_append _ gap.flatten]
    exact Nat.le_add_right _ _
  rcases List.append_eq_append_iff.mp same with ⟨gap, rfl, rest⟩ | ⟨gap, rfl, rest⟩
  · cases gap with
    | nil => exact .inl ⟨(List.append_nil before).symm, (List.cons.inj rest).1⟩
    | cons first gap =>
      obtain ⟨rfl, -⟩ := List.cons.inj rest
      exact .inr (.inl (ends before gap run))
  · cases gap with
    | nil => exact .inl ⟨List.append_nil before', (List.cons.inj rest).1.symm⟩
    | cons first gap =>
      obtain ⟨rfl, -⟩ := List.cons.inj rest
      exact .inr (.inr (ends before' gap run'))

/-! ### Whole words -/

/-- A stretch of word characters with no word character on either side. -/
structure Word (text left word right : Text) : Prop where
  whole : text = left ++ word ++ right
  present : word ≠ []
  letters : ∀ c ∈ word, isWordChar c = true
  before : ∀ c ∈ left.getLast?, isWordChar c = false
  after : ∀ c ∈ right.head?, isWordChar c = false

namespace Word

variable {text left word right left' word' right' : Text}

/-- A word has a width. -/
theorem width_pos (isWord : Word text left word right) : 0 < word.width :=
  Nat.pos_of_ne_zero fun none => isWord.present ((width_eq_zero_iff word).mp none)

/-- A whole word is a run: the runs of the text are those on its left, the word, and those on its
right. -/
theorem runs_eq (isWord : Word text left word right) :
    text.runs = left.runs ++ word :: right.runs := by
  have alone : word.runs = [word] :=
    List.splitBy_of_isChain isWord.present
      ((isRun_iff word).mp (isRun_of_forall isWord.present isWord.letters)).2
  have meets : ∀ c ∈ left.getLast?, ∀ d ∈ (word ++ right).head?,
      (isWordChar c == isWordChar d) = false := by
    intro c last d first
    rw [List.head?_append_of_ne_nil _ isWord.present] at first
    rw [isWord.before c last, isWord.letters d (List.mem_of_mem_head? first)]
    rfl
  have meets' : ∀ c ∈ word.getLast?, ∀ d ∈ right.head?,
      (isWordChar c == isWordChar d) = false := by
    intro c last d first
    rw [isWord.letters c (List.mem_of_getLast? last), isWord.after d first]
    rfl
  calc text.runs = (left ++ (word ++ right)).runs := by rw [isWord.whole, List.append_assoc]
    _ = left.runs ++ (word ++ right).runs := List.splitBy_append meets
    _ = left.runs ++ (word.runs ++ right.runs) :=
      congrArg (left.runs ++ ·) (List.splitBy_append meets')
    _ = left.runs ++ word :: right.runs := by rw [alone]; rfl

/-- A run of word characters is a whole word, since the runs beside it are of the other kind. -/
theorem of_runs {before after : List Text} (split : text.runs = before ++ word :: after)
    (letters : word.startsWord = true) : Word text before.flatten word after.flatten := by
  obtain ⟨whole, isRun, alternate⟩ := runs_eq_iff.mp split
  obtain ⟨present, alike⟩ := isRun word (by simp)
  obtain ⟨-, further, behind⟩ := List.isChain_append.mp alternate
  obtain ⟨ahead, -⟩ := List.isChain_cons.mp further
  refine ⟨by simp [whole], present, letters ▸ alike, ?_, ?_⟩
  · intro c last
    rcases List.eq_nil_or_concat before with rfl | ⟨front, run, rfl⟩
    · simp at last
    · have isRun' := isRun run (by simp)
      have differs : run.startsWord ≠ word.startsWord := behind run (by simp) word (by simp)
      rw [List.concat_eq_append, List.flatten_append, List.flatten_singleton,
        List.getLast?_append_of_ne_nil _ isRun'.present] at last
      rw [isRun'.alike c (List.mem_of_getLast? last)]
      simpa [letters] using differs
  · intro c first
    cases after with
    | nil => simp at first
    | cons run rest =>
      have isRun' := isRun run (by simp)
      have differs : word.startsWord ≠ run.startsWord := ahead run (by simp)
      rw [List.flatten_cons, List.head?_append_of_ne_nil _ isRun'.present] at first
      rw [isRun'.alike c (List.mem_of_mem_head? first)]
      simpa [letters] using differs

/-- Two whole words of a text are the same one, or one ends before the other starts. -/
theorem cases (isWord : Word text left word right) (isWord' : Word text left' word' right') :
    (left = left' ∧ word = word') ∨ (left ++ word).width ≤ left'.width ∨
      (left' ++ word').width ≤ left.width := by
  rcases cases_of_append (isWord.runs_eq.symm.trans isWord'.runs_eq) with ⟨same, rfl⟩ | apart
  · have same := congrArg List.flatten same
    rw [flatten_runs, flatten_runs] at same
    exact .inl ⟨same, rfl⟩
  · rw [flatten_runs, flatten_runs] at apart
    exact .inr apart

end Word

end ScriptCheck.Text
