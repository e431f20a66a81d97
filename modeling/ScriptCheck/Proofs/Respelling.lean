import ScriptCheck.Proofs.Decision
import ScriptCheck.Proofs.Fitting
import ScriptCheck.Proofs.LineSearch
import ScriptCheck.Proofs.Mending
import ScriptCheck.Proofs.Words

/-!
# Respelled names

The reference cuts a text into its runs and writes each run down again, with the right
spelling when the run is a misspelled name in code. Mending by the rules about spelling
does the same, whatever the order and the number of the misspelled names, and it leaves
nothing for them to report.

The rules search for words of their own, so it has to be shown that they find every
misspelled run and no other. A right spelling is a run in the place of a run of the same
kind, and it is read like the word before it, so the runs of the mended text are the
respelled ones and code stays code.
-/

namespace ScriptCheck

namespace Spelling

/-! ### The reference -/

/-- A name with its misspellings, and how its rule reports them. -/
structure Entry where
  id : String
  message : String
  wrong : List String
  right : String

namespace Entry

def rule (entry : Entry) : Rule :=
  misspelling entry.id entry.message entry.wrong entry.right

/-- Whether a word is one of the misspellings. -/
def lists (entry : Entry) (word : Text) : Bool := entry.wrong.any fun wrong => wrong.toList == word

end Entry

def vocabulary : List Entry :=
  [{ id := "function-keyword-typo", message := "Misspelled keyword 'function'"
     wrong := ["fucntion", "funtion", "functoin"], right := "function" },
   { id := "document-typo", message := "Misspelled global 'document'"
     wrong := ["docuemnt", "documnet"], right := "document" },
   { id := "get-element-by-id-case", message := "Incorrect case in 'getElementById'"
     wrong := ["getElementByID"], right := "getElementById" }]

/-- The name that a word is a misspelling of. -/
def nameFor? (word : Text) : Option Entry := vocabulary.find? fun entry => entry.lists word

/-- A word with the right spelling. -/
def corrected (word : Text) : Text :=
  ((nameFor? word).map fun entry => entry.right.toList).getD word

/-- The run at a byte offset, with the right spelling when it is in code. -/
def respelledAt (layout : Layout) (offset : Nat) (run : Text) : Text :=
  if layout.inCode offset then corrected run else run

/-- The runs from a byte offset on, those in code with the right spelling. -/
def respelledFrom (layout : Layout) (offset : Nat) : List Text → List Text
  | [] => []
  | run :: rest =>
    respelledAt layout offset run :: respelledFrom layout (offset + run.width) rest

/-- A text with the right spelling of every misspelled name in code. -/
def respelled (text : Text) : Text := (respelledFrom text.layout 0 text.runs).flatten

/-! ### The vocabulary -/

/-- Every listed misspelling is a word of letters, and is corrected. -/
theorem wrong_vocabulary : ∀ entry ∈ vocabulary, ∀ wrong ∈ entry.wrong,
    wrong.toList ≠ [] ∧ wrong.toList.all Char.isAlpha = true ∧
      corrected wrong.toList = entry.right.toList := by
  decide

/-- Every right name is a word of letters, and no misspelling. -/
theorem right_vocabulary : ∀ entry ∈ vocabulary,
    entry.right.toList ≠ [] ∧ entry.right.toList.all Char.isAlpha = true ∧
      (nameFor? entry.right.toList).isNone = true := by
  decide

/-- No word is a misspelling of two names. -/
theorem pairwise_vocabulary : vocabulary.Pairwise fun entry other =>
    ∀ wrong ∈ entry.wrong, other.lists wrong.toList = false := by
  decide

section Vocabulary

variable {entry : Entry} {word : Text}

/-- A word is listed under a name if it is a misspelling there. -/
theorem Entry.lists_iff : entry.lists word = true ↔ ∃ wrong ∈ entry.wrong, wrong.toList = word := by
  simp [lists]

/-- What the list says of a misspelling. -/
theorem of_lists (known : entry ∈ vocabulary) (listed : entry.lists word = true) :
    word ≠ [] ∧ (∀ c ∈ word, c.isAlpha = true) ∧ corrected word = entry.right.toList := by
  obtain ⟨wrong, among, rfl⟩ := Entry.lists_iff.mp listed
  obtain ⟨present, letters, fixed⟩ := wrong_vocabulary entry known wrong among
  exact ⟨present, List.all_eq_true.mp letters, fixed⟩

/-- The name found for a word is one that lists the word. -/
theorem of_nameFor? (found : nameFor? word = some entry) :
    entry ∈ vocabulary ∧ entry.lists word = true :=
  ⟨List.mem_of_find?_eq_some found,
    List.find?_some (p := fun entry : Entry => entry.lists word) found⟩

/-- A word that is listed under some name has a name found for it. -/
theorem exists_nameFor? (known : entry ∈ vocabulary) (listed : entry.lists word = true) :
    ∃ other, nameFor? word = some other :=
  Option.isSome_iff_exists.mp (List.find?_isSome.mpr ⟨entry, known, listed⟩)

/-- A word that is no misspelling is left as it is. -/
theorem corrected_of_none (none : nameFor? word = none) : corrected word = word := by
  rw [corrected, none]
  rfl

/-- The right spelling of a word is no misspelling. -/
theorem nameFor?_corrected (word : Text) : nameFor? (corrected word) = none := by
  cases found : nameFor? word with
  | none => rw [corrected_of_none found, found]
  | some entry =>
    obtain ⟨known, listed⟩ := of_nameFor? found
    rw [(of_lists known listed).2.2]
    exact Option.isNone_iff_eq_none.mp (right_vocabulary entry known).2.2

/-- A misspelled word and its right spelling are made of letters. -/
theorem letters_of_nameFor? (found : nameFor? word = some entry) {fixed : Text}
    (either : fixed = word ∨ fixed = corrected word) :
    fixed ≠ [] ∧ ∀ c ∈ fixed, c.isAlpha = true := by
  obtain ⟨known, listed⟩ := of_nameFor? found
  obtain ⟨present, letters, fixed_eq⟩ := of_lists known listed
  rcases either with rfl | rfl
  · exact ⟨present, letters⟩
  · obtain ⟨present', letters', -⟩ := right_vocabulary entry known
    rw [fixed_eq]
    exact ⟨present', List.all_eq_true.mp letters'⟩

end Vocabulary

end Spelling

open Pattern Repair

/-! ### Carrying out the edits from the front -/

namespace Repair

variable {edits : List Substitution} (wide : ∀ edit ∈ edits, edit.length ≠ 0)

include wide in
/-- Nothing is put in between if every edit replaces something. -/
theorem inserted_of_wide (offset : Nat) : inserted edits offset = [] := by
  have none : edits.filter (Substitution.insertsAt offset) = [] := by
    rw [List.filter_eq_nil_iff]
    intro edit member inserts
    exact wide edit member (Substitution.insertsAt_iff.mp inserts).1
  rw [inserted, none]
  rfl

include wide in
/-- A stretch that no edit touches is kept as it is. The induction is on the stretch. -/
theorem substituteFrom_kept (front rest : Text) (offset : Nat)
    (apart : ∀ edit ∈ edits, edit.stop ≤ offset ∨ offset + front.width ≤ edit.offset) :
    substituteFrom edits offset (front ++ rest) =
      front ++ substituteFrom edits (offset + front.width) rest := by
  induction front generalizing offset with
  | nil => rfl
  | cons c front ih =>
    have positive := c.utf8Size_pos
    rw [Text.width_cons] at apart
    have starts : edits.filter (Substitution.rewritesAt offset) = [] := by
      rw [List.filter_eq_nil_iff]
      intro edit member rewrites
      have here := (Substitution.rewritesAt_iff.mp rewrites).2
      have bounds := apart edit member
      have length := wide edit member
      rw [Substitution.stop] at bounds
      omega
    have covers : edits.any (Substitution.covers offset) = false := by
      rw [List.any_eq_false]
      intro edit member covers
      have inside := Substitution.covers_iff.mp covers
      have bounds := apart edit member
      rw [Substitution.stop] at bounds
      omega
    have behind := ih (offset + c.utf8Size) fun edit member => by
      have bounds := apart edit member
      omega
    rw [List.cons_append, substituteFrom, inserted_of_wide wide, rewritten, starts, covers, behind,
      Text.width_cons, Nat.add_assoc]
    rfl

variable {edit : Substitution} (member : edit ∈ edits)
  (apart : ∀ other ∈ edits, other = edit ∨ other.stop ≤ edit.offset ∨ edit.stop ≤ other.offset)

include wide member apart in
/-- The bytes of an edit behind its first one are dropped, since its new text was put at the
first. -/
theorem substituteFrom_dropped (front rest : Text) (offset : Nat) (entered : edit.offset < offset)
    (stops : offset + front.width = edit.stop) :
    substituteFrom edits offset (front ++ rest) = substituteFrom edits edit.stop rest := by
  induction front generalizing offset with
  | nil => exact congrArg (substituteFrom edits · rest) stops
  | cons c front ih =>
    have positive := c.utf8Size_pos
    rw [Text.width_cons] at stops
    have starts : edits.filter (Substitution.rewritesAt offset) = [] := by
      rw [List.filter_eq_nil_iff]
      intro other listed rewrites
      have here := (Substitution.rewritesAt_iff.mp rewrites).2
      rcases apart other listed with rfl | bounds
      · omega
      · have length := wide other listed
        rw [Substitution.stop] at stops
        simp only [Substitution.stop] at bounds
        omega
    have covers : edits.any (Substitution.covers offset) = true := by
      refine List.any_eq_true.mpr ⟨edit, member, Substitution.covers_iff.mpr ?_⟩
      rw [Substitution.stop] at stops
      omega
    rw [List.cons_append, substituteFrom, inserted_of_wide wide, rewritten, starts, covers]
    exact ih (offset + c.utf8Size) (by omega) (by omega)

include wide member apart in
/-- A stretch that is the span of an edit gives way to the new text of the edit. -/
theorem substituteFrom_replaced (front rest : Text) (length : edit.length = front.width) :
    substituteFrom edits edit.offset (front ++ rest) =
      edit.new ++ substituteFrom edits edit.stop rest := by
  cases front with
  | nil => exact absurd length (wide edit member)
  | cons c front =>
    have positive := c.utf8Size_pos
    rw [Text.width_cons] at length
    have starts : (edits.filter (Substitution.rewritesAt edit.offset)).head? = some edit := by
      cases listed : edits.filter (Substitution.rewritesAt edit.offset) with
      | nil =>
        have none := List.filter_eq_nil_iff.mp listed edit member
        exact absurd (Substitution.rewritesAt_iff.mpr ⟨wide edit member, rfl⟩) none
      | cons other others =>
        have first : other ∈ edits.filter (Substitution.rewritesAt edit.offset) := by
          rw [listed]
          exact .head _
        obtain ⟨among, rewrites⟩ := List.mem_filter.mp first
        obtain ⟨long, here⟩ := Substitution.rewritesAt_iff.mp rewrites
        rcases apart other among with rfl | bounds
        · rfl
        · rw [Substitution.stop, Substitution.stop] at bounds
          omega
    have covers : edits.any (Substitution.covers edit.offset) = true := by
      refine List.any_eq_true.mpr ⟨edit, member, Substitution.covers_iff.mpr ?_⟩
      omega
    have behind := substituteFrom_dropped wide member apart front rest
      (edit.offset + c.utf8Size) (by omega) (by rw [Substitution.stop]; omega)
    rw [List.cons_append, substituteFrom, inserted_of_wide wide, rewritten, starts, covers, behind]
    simp

end Repair

namespace Spelling

/-! ### The runs of the respelled text -/

/-- A respelled run is a run of the same kind: if it changes, then from letters to letters. -/
theorem isRun_respelledAt (layout : Layout) (offset : Nat) {run : Text} (isRun : run.IsRun) :
    (respelledAt layout offset run).IsRun ∧
      (respelledAt layout offset run).startsWord = run.startsWord := by
  rw [respelledAt]
  split
  · cases found : nameFor? run with
    | none =>
      rw [corrected_of_none found]
      exact ⟨isRun, rfl⟩
    | some entry =>
      have word {fixed : Text} (either : fixed = run ∨ fixed = corrected run) :
          fixed ≠ [] ∧ ∀ c ∈ fixed, isWordChar c = true := by
        obtain ⟨present, letters⟩ := letters_of_nameFor? found either
        exact ⟨present, fun c listed => isWordChar_of_isAlpha (letters c listed)⟩
      obtain ⟨present, letters⟩ := word (.inl rfl)
      obtain ⟨present', letters'⟩ := word (.inr rfl)
      refine ⟨Text.isRun_of_forall present' letters', ?_⟩
      rw [Text.startsWord_of_forall present letters, Text.startsWord_of_forall present' letters']
  · exact ⟨isRun, rfl⟩

/-- Respelled runs are runs of the same kinds. -/
theorem isRun_respelledFrom (layout : Layout) (offset : Nat) {runs : List Text}
    (isRun : ∀ run ∈ runs, run.IsRun) :
    (∀ run ∈ respelledFrom layout offset runs, run.IsRun) ∧
      (respelledFrom layout offset runs).map Text.startsWord = runs.map Text.startsWord := by
  induction runs generalizing offset with
  | nil => exact ⟨by simp [respelledFrom], rfl⟩
  | cons run runs ih =>
    obtain ⟨first, others⟩ := List.forall_mem_cons.mp isRun
    obtain ⟨first', kind⟩ := isRun_respelledAt layout offset first
    obtain ⟨others', kinds⟩ := ih (offset + run.width) others
    rw [respelledFrom, List.map_cons, List.map_cons, kind, kinds]
    exact ⟨List.forall_mem_cons.mpr ⟨first', others'⟩, rfl⟩

/-- The runs of a respelled text are the respelled runs. -/
theorem runs_respelled (text : Text) :
    (respelled text).runs = respelledFrom text.layout 0 text.runs := by
  obtain ⟨-, isRun, alternate⟩ := Text.runs_eq_iff.mp (Eq.refl text.runs)
  obtain ⟨isRun', kinds⟩ := isRun_respelledFrom text.layout 0 isRun
  refine Text.runs_eq_iff.mpr ⟨rfl, isRun', ?_⟩
  rw [← List.isChain_map (R := (· ≠ ·)) Text.startsWord] at alternate ⊢
  rwa [kinds]

/-- A respelled run comes from a run behind the runs that those in front of it come from. -/
theorem exists_of_respelledFrom {layout : Layout} {offset : Nat} {runs before' after' : List Text}
    {run' : Text} (split : respelledFrom layout offset runs = before' ++ run' :: after') :
    ∃ before run after, runs = before ++ run :: after ∧
      before' = respelledFrom layout offset before ∧
      run' = respelledAt layout (offset + Text.width before.flatten) run := by
  induction runs generalizing offset before' with
  | nil => simp [respelledFrom] at split
  | cons run runs ih =>
    cases before' with
    | nil =>
      obtain ⟨same, -⟩ := List.cons.inj split
      exact ⟨[], run, runs, rfl, rfl, same.symm⟩
    | cons first before' =>
      obtain ⟨rfl, further⟩ := List.cons.inj split
      obtain ⟨before, other, after, rfl, rfl, same⟩ := ih further
      refine ⟨run :: before, other, after, rfl, rfl, ?_⟩
      rw [same, List.flatten_cons, Text.width_append, Nat.add_assoc]

/-- A run of a text and the same run respelled leave behind the same mode, as letters do not change
it. -/
theorem after_respelledAt {text left run right : Text} (whole : text = left ++ run ++ right) :
    (Mode.code.after left).after (respelledAt text.layout left.width run) =
      (Mode.code.after left).after run := by
  rw [respelledAt]
  split
  · rename_i inCode
    cases found : nameFor? run with
    | none => rw [corrected_of_none found]
    | some entry =>
      have plain {fixed : Text} (either : fixed = run ∨ fixed = corrected run) :
          fixed ≠ [] ∧ ∀ c ∈ fixed, Mode.isPlain c = true := by
        obtain ⟨present, letters⟩ := letters_of_nameFor? found either
        exact ⟨present, fun c listed => (Line.isPlain_of_isAlpha (letters c listed)).1⟩
      obtain ⟨present, plainRun⟩ := plain (.inl rfl)
      obtain ⟨present', plainFixed⟩ := plain (.inr rfl)
      obtain ⟨c, rest, rfl⟩ := List.exists_cons_of_ne_nil present
      have whole' : text = left ++ c :: (rest ++ right) := by simpa using whole
      have inside : (Mode.code.after left).inCode = true :=
        (Text.layout_inCode_eq whole' (plainRun c (.head _))).symm.trans inCode
      rw [Mode.after_of_inCode inside present plainRun,
        Mode.after_of_inCode inside present' plainFixed]
  · rfl

/-- Respelled runs are read like the runs they come from. -/
theorem after_respelledFrom {text left right : Text} {runs : List Text}
    (whole : text = left ++ runs.flatten ++ right) :
    (Mode.code.after left).after (respelledFrom text.layout left.width runs).flatten =
      (Mode.code.after left).after runs.flatten := by
  induction runs generalizing left with
  | nil => rfl
  | cons run runs ih =>
    have whole' : text = left ++ run ++ (runs.flatten ++ right) := by simpa using whole
    have further := ih
      (show text = left ++ run ++ runs.flatten ++ right by simpa using whole)
    rw [Mode.after_append, Text.width_append] at further
    rw [respelledFrom, List.flatten_cons, List.flatten_cons, Mode.after_append, Mode.after_append,
      after_respelledAt whole', further]

/-- No misspelled name is left in code: a run in code of the respelled text comes from one in code,
and that was corrected. -/
theorem nameFor?_of_runs_respelled {text : Text} {before' after' : List Text} {run' : Text}
    (split : (respelled text).runs = before' ++ run' :: after')
    (inCode : (respelled text).layout.inCode (Text.width before'.flatten) = true) :
    nameFor? run' = none := by
  have whole' : respelled text = before'.flatten ++ (run' ++ after'.flatten) := by
    rw [← Text.flatten_runs (respelled text), split, List.flatten_append, List.flatten_cons]
  rw [runs_respelled] at split
  obtain ⟨before, run, after, runs_eq, rfl, rfl⟩ := exists_of_respelledFrom split
  have whole : text = before.flatten ++ (run ++ after.flatten) := by
    rw [← Text.flatten_runs text, runs_eq, List.flatten_append, List.flatten_cons]
  rw [Nat.zero_add] at whole' ⊢
  cases coded : text.layout.inCode (Text.width before.flatten) with
  | true =>
    rw [respelledAt, coded, if_pos rfl]
    exact nameFor?_corrected run
  | false =>
    have kept : respelledAt text.layout (Text.width before.flatten) run = run := by
      rw [respelledAt, coded]
      rfl
    rw [kept] at whole' ⊢
    cases found : nameFor? run with
    | none => rfl
    | some entry =>
      -- a misspelled name that was not code has not become code
      obtain ⟨present, letters⟩ := letters_of_nameFor? found (.inl rfl)
      obtain ⟨c, rest, rfl⟩ := List.exists_cons_of_ne_nil present
      have plain : Mode.isPlain c = true := (Line.isPlain_of_isAlpha (letters c (.head _))).1
      have modes : Mode.code.after (respelledFrom text.layout 0 before).flatten =
          Mode.code.after before.flatten :=
        after_respelledFrom (show text = [] ++ before.flatten ++ _ from whole)
      rw [Text.layout_inCode_eq whole' plain, modes, ← Text.layout_inCode_eq whole plain, coded]
        at inCode
      cases inCode

/-! ### What the rules find -/

/-- A finding about a misspelled name in code. -/
structure Marks (entry : Entry) (finding : Finding) (text left right : Text) : Prop where
  word : text.Word left finding.matched right
  listed : entry.lists finding.matched = true
  inCode : text.layout.inCode left.width = true
  offset : finding.offset = left.width
  length : finding.length = finding.matched.width
  replaced : finding.replacement? = some entry.right.toList

section Findings

variable {entry : Entry} (known : entry ∈ vocabulary) {text left right : Text}

/-- What the pattern of a rule fits: a misspelling with an edge of a word on both sides. -/
theorem fits_rule_iff {before body after : Text} {captures : List Capture} :
    entry.rule.pattern.Fits before body after captures ↔
      entry.lists body = true ∧ before.startsWord ≠ (body ++ after).startsWord ∧
        Text.startsWord (body.reverse ++ before) ≠ after.startsWord ∧ captures = [] := by
  constructor
  · intro fits
    obtain ⟨edge, fits₁⟩ := fits.pass_edge
    obtain ⟨word, listed, back, rfl, fits₂⟩ := fits₁.pass_litOf
    obtain ⟨edge', fits₃⟩ := fits₂.pass_edge
    obtain ⟨rfl, rfl⟩ := fits_sequence_nil.mp fits₃
    rw [List.append_nil] at edge ⊢
    exact ⟨Entry.lists_iff.mpr ⟨word, listed, rfl⟩, edge, edge', rfl⟩
  · rintro ⟨listed, edge, edge', rfl⟩
    obtain ⟨word, among, rfl⟩ := Entry.lists_iff.mp listed
    refine fits_sequence_cons.mpr ⟨[], word.toList, [], [], rfl, rfl,
      fits_edge.mpr ⟨edge, rfl, rfl⟩, fits_sequence_cons.mpr ⟨word.toList, [], [], [],
        (List.append_nil _).symm, rfl, fits_litOf.mpr ⟨⟨word, among, rfl⟩, rfl⟩, ?_⟩⟩
    exact fits_edge.mpr ⟨edge', rfl, rfl⟩

include known in
/-- The rule about a name matches its misspellings where they are whole words, since misspellings
are made of word characters. -/
theorem fits_rule_iff_word {word : Text} {captures : List Capture}
    (whole : text = left ++ word ++ right) :
    entry.rule.pattern.Fits left.reverse word right captures ↔
      text.Word left word right ∧ entry.lists word = true ∧ captures = [] := by
  rw [fits_rule_iff]
  by_cases listed : entry.lists word = true
  · obtain ⟨present, alpha, -⟩ := of_lists known listed
    have letters : ∀ c ∈ word, isWordChar c = true :=
      fun c among => isWordChar_of_isAlpha (alpha c among)
    have starts {front rest : Text} (present : front ≠ [])
        (letters : ∀ c ∈ front, isWordChar c = true) : Text.startsWord (front ++ rest) = true := by
      rw [Text.startsWord, List.head?_append_of_ne_nil _ present]
      exact Text.startsWord_of_forall present letters
    rw [starts present letters, starts (by simpa using present) (by simpa using letters),
      ne_eq, ne_eq, Bool.not_eq_true, Bool.true_eq, Bool.not_eq_true, Text.startsWord_eq_false_iff,
      Text.startsWord_eq_false_iff, List.head?_reverse]
    constructor
    · rintro ⟨-, before, after, none⟩
      exact ⟨⟨whole, present, letters, before, after⟩, listed, none⟩
    · rintro ⟨isWord, -, none⟩
      exact ⟨listed, isWord.before, isWord.after, none⟩
  · exact ⟨fun fits => absurd fits.1 listed, fun isWord => absurd isWord.2.1 listed⟩

include known in
/-- What the pattern matches is a misspelling, as a whole word. -/
theorem word_of_occurs {found : Match} {captures : List Capture}
    (occurs : found.Occurs entry.rule.pattern text left right captures) :
    text.Word left found.body right ∧ entry.lists found.body = true := by
  obtain ⟨isWord, listed, -⟩ := (fits_rule_iff_word known occurs.whole).mp occurs.fits
  exact ⟨isWord, listed⟩

include known in
/-- Every misspelling that is a whole word is matched, as no match in front of it reaches into the
word. -/
theorem exists_mem_allMatches {word : Text} (isWord : text.Word left word right)
    (listed : entry.lists word = true) :
    ∃ found ∈ entry.rule.pattern.allMatches text, found.start = left.width ∧ found.body = word := by
  have within : (Cursor.between left (word ++ right)).Within text := by
    rw [isWord.whole, List.append_assoc]
    exact Cursor.within_between _ _
  have offset : (Cursor.between left (word ++ right)).offset = left.width :=
    Text.width_reverse left
  have placed {place : Cursor} {other : Match} (among : place ∈ Cursor.all text)
      (matched : entry.rule.pattern.matchAt? place = some other) :
      ∃ left' right', text.Word left' other.body right' ∧ place.offset = left'.width ∧
        other.start = left'.width ∧ other.stop = left'.width + other.body.width := by
    obtain ⟨start, left', right', captures, occurs⟩ := occurs_of_matchAt? among matched
    exact ⟨left', right', (word_of_occurs known occurs).1, start ▸ occurs.start_eq,
      occurs.start_eq, occurs.stop_eq⟩
  have fits : entry.rule.pattern.Fits (Cursor.between left (word ++ right)).before word right [] :=
    (fits_rule_iff_word known isWord.whole).mpr ⟨isWord, listed, rfl⟩
  obtain ⟨found, matched⟩ := exists_matchAt?_of_fits
    (show (Cursor.between left (word ++ right)).after = word ++ right from rfl) fits
  obtain ⟨left', right', isWord', place', start', stop'⟩ := placed within.mem_all matched
  have wide := isWord.width_pos
  have wide' := isWord'.width_pos
  -- the match at the place of the word is a word of the same text, so it is the word
  obtain ⟨rfl, rfl⟩ : left' = left ∧ found.body = word := by
    rcases isWord'.cases isWord with same | apart | apart
    · exact same
    all_goals
      rw [Text.width_append] at apart
      omega
  refine ⟨found, ?_, start', rfl⟩
  have places := Cursor.pairwise_onward (Cursor.start text) text
  refine mem_matchesFrom_of_clear places.1 within.mem_all matched ?_ (by simp)
  intro place among ahead earlier matched'
  obtain ⟨left, right, isEarlier, place, start, stop⟩ := placed among matched'
  rcases isEarlier.cases isWord' with ⟨rfl, -⟩ | apart | apart
  · omega
  all_goals
    rw [Text.width_append] at apart
    omega

/-- The rule about a name reports the matches that start in code. -/
theorem findings?_rule (entry : Entry) (knows : Text → Bool) (text : Text) :
    entry.rule.findings? knows text =
      some (((entry.rule.pattern.allMatches text).filter fun found =>
        text.layout.inCode found.start).map (entry.rule.finding text)) := by
  have decides (inCode : Bool) : (pure inCode : Check Bool).Decides (fun _ => false) inCode :=
    Check.decides_pure inCode
  exact Rule.findings?_of_decides rfl fun found _ => decides (text.layout.inCode found.start)

variable {checker : Checker}

include known in
/-- A finding marks a misspelling that is a whole word in code. -/
theorem exists_marks {finding : Finding} (member : finding ∈ checker.ruleFindings text entry.rule) :
    ∃ left right, Marks entry finding text left right := by
  rw [Checker.ruleFindings, findings?_rule] at member
  obtain ⟨found, listed, rfl⟩ := List.mem_map.mp member
  obtain ⟨listed, inCode⟩ := List.mem_filter.mp listed
  obtain ⟨left, right, captures, occurs⟩ := occurs_of_mem_allMatches listed
  obtain ⟨isWord, misspelled⟩ := word_of_occurs known occurs
  rw [occurs.start_eq] at inCode
  exact ⟨left, right, isWord, misspelled, inCode, occurs.start_eq, occurs.width_eq, rfl⟩

include known in
/-- A misspelling that is a whole word in code is reported. -/
theorem exists_finding {word : Text} (isWord : text.Word left word right)
    (listed : entry.lists word = true) (inCode : text.layout.inCode left.width = true) :
    ∃ finding ∈ checker.ruleFindings text entry.rule,
      finding.offset = left.width ∧ finding.matched = word := by
  obtain ⟨found, among, start, rfl⟩ := exists_mem_allMatches known isWord listed
  refine ⟨entry.rule.finding text found, ?_, start, rfl⟩
  rw [Checker.ruleFindings, findings?_rule]
  rw [← start] at inCode
  exact List.mem_map_of_mem (List.mem_filter.mpr ⟨among, inCode⟩)

end Findings

/-! ### Mending -/

/-- Edits that put the right spelling in the place of each misspelled name in code. -/
def Respells (text : Text) (edits : List Substitution) : Prop :=
  ∀ edit, edit ∈ edits ↔ ∃ before run after, text.runs = before ++ run :: after ∧
    nameFor? run ≠ none ∧ text.layout.inCode (Text.width before.flatten) = true ∧
    edit = ⟨Text.width before.flatten, run.width, corrected run⟩

/-- No such edit is an insertion. -/
theorem Respells.wide {text : Text} {edits : List Substitution} (respells : Respells text edits) :
    ∀ edit ∈ edits, edit.length ≠ 0 := by
  intro edit member
  obtain ⟨before, run, after, split, -, -, rfl⟩ := (respells edit).mp member
  obtain ⟨-, isRun, -⟩ := Text.runs_eq_iff.mp split
  exact fun none => (isRun run (by simp)).present ((Text.width_eq_zero_iff run).mp none)

/-- Each edit corrects a given run or lies apart from it. -/
theorem Respells.cases {text : Text} {edits : List Substitution} (respells : Respells text edits)
    {before runs : List Text} {run : Text} (split : text.runs = before ++ run :: runs)
    {edit : Substitution} (member : edit ∈ edits) :
    (edit = ⟨Text.width before.flatten, run.width, corrected run⟩ ∧ nameFor? run ≠ none ∧
      text.layout.inCode (Text.width before.flatten) = true) ∨
    edit.stop ≤ Text.width before.flatten ∨
      Text.width before.flatten + run.width ≤ edit.offset := by
  obtain ⟨before', run', after', split', misspelled, inCode, rfl⟩ := (respells edit).mp member
  rcases Text.cases_of_append (split.symm.trans split') with ⟨rfl, rfl⟩ | ends | ends
  · exact .inl ⟨rfl, misspelled, inCode⟩
  · rw [Text.width_append] at ends
    exact .inr (.inr ends)
  · rw [Text.width_append] at ends
    exact .inr (.inl ends)

/-- Such edits write down the respelled runs. The induction is on the runs: each is kept, or
replaced by the one edit for it. -/
theorem substituteFrom_runs {text : Text} {edits : List Substitution}
    (respells : Respells text edits) {before runs : List Text}
    (split : text.runs = before ++ runs) :
    substituteFrom edits (Text.width before.flatten) runs.flatten =
      (respelledFrom text.layout (Text.width before.flatten) runs).flatten := by
  induction runs generalizing before with
  | nil => exact inserted_of_wide respells.wide _
  | cons run runs ih =>
    have further := ih
      (show text.runs = before ++ [run] ++ runs by rw [split, List.append_assoc]; rfl)
    have behind : Text.width (before ++ [run]).flatten =
        Text.width before.flatten + run.width := by
      rw [List.flatten_append, List.flatten_singleton, Text.width_append]
    rw [behind] at further
    rw [List.flatten_cons, respelledFrom, List.flatten_cons, ← further]
    by_cases changes : nameFor? run ≠ none ∧ text.layout.inCode (Text.width before.flatten) = true
    · have member := (respells ⟨_, _, _⟩).mpr ⟨before, run, runs, split, changes.1, changes.2, rfl⟩
      rw [respelledAt, if_pos changes.2]
      exact substituteFrom_replaced respells.wide member
        (fun other listed => (respells.cases split listed).imp_left And.left) run runs.flatten rfl
    · have kept : respelledAt text.layout (Text.width before.flatten) run = run := by
        rw [respelledAt]
        split
        · rename_i inCode
          exact corrected_of_none (not_not.mp fun misspelled => changes ⟨misspelled, inCode⟩)
        · rfl
      rw [kept]
      refine substituteFrom_kept respells.wide run runs.flatten _ fun edit member => ?_
      exact (respells.cases split member).resolve_left fun same => changes same.2

section Checker

variable {checker : Checker} (rules : checker.catalogue.rules = vocabulary.map Entry.rule)
  (text : Text)

include rules in
/-- The findings are those of the rules, one for each name. -/
theorem mem_findings_iff {finding : Finding} :
    finding ∈ checker.catalogue.rules.flatMap (checker.ruleFindings text) ↔
      ∃ entry ∈ vocabulary, finding ∈ checker.ruleFindings text entry.rule := by
  rw [rules, List.flatMap_map, List.mem_flatMap]

include rules in
/-- Two misspelled names lie apart, also when different rules report them, since both are whole
words. -/
theorem pairwise_findings :
    (checker.catalogue.rules.flatMap (checker.ruleFindings text)).Pairwise
      fun finding later => conflicts finding later = false := by
  rw [rules, List.flatMap_map, List.pairwise_flatMap]
  refine ⟨fun entry _ => (checker.pairwise_ruleFindings text entry.rule).imp And.right,
    pairwise_vocabulary.imp_of_mem ?_⟩
  intro entry other known known' disjoint finding member later member'
  obtain ⟨left, right, marks⟩ := exists_marks known member
  obtain ⟨left', right', marks'⟩ := exists_marks known' member'
  rw [Bool.eq_false_iff, ne_eq, conflicts_iff, Finding.stop, Finding.stop, marks.offset,
    marks'.offset, marks.length, marks'.length]
  rcases marks.word.cases marks'.word with ⟨-, same⟩ | apart | apart
  · obtain ⟨wrong, among, word⟩ := Entry.lists_iff.mp marks.listed
    have both := marks'.listed
    rw [← same, ← word, disjoint wrong among] at both
    cases both
  all_goals
    rw [Text.width_append] at apart
    omega

/-- The remedy asks that the word be replaced by its spelling. -/
theorem Marks.substitution?_eq {entry : Entry} {finding : Finding} {text left right : Text}
    (known : entry ∈ vocabulary) (marks : Marks entry finding text left right) :
    isStale text finding = false ∧ substitution? text finding =
      some ⟨left.width, finding.matched.width, corrected finding.matched⟩ := by
  obtain ⟨-, -, fixed⟩ := of_lists known marks.listed
  have changed : entry.right.toList ≠ finding.matched := by
    intro same
    obtain ⟨other, found⟩ := exists_nameFor? known marks.listed
    rw [← same, ← fixed, nameFor?_corrected] at found
    cases found
  rw [← marks.offset, ← marks.length, fixed]
  exact substitution?_of_pieces marks.word.whole marks.offset.symm marks.length.symm marks.replaced
    changed

include rules in
/-- The rules ask for the right spelling of each misspelled name in code, and for nothing else. -/
theorem respells_accepted :
    Respells text (substitutions text
      (checker.catalogue.rules.flatMap (checker.ruleFindings text))) := by
  intro edit
  rw [substitutions, List.mem_filterMap]
  constructor
  · rintro ⟨finding, member, asked⟩
    obtain ⟨entry, known, member⟩ := (mem_findings_iff rules text).mp member
    obtain ⟨left, right, marks⟩ := exists_marks known member
    rw [(marks.substitution?_eq known).2] at asked
    obtain ⟨other, misspelled⟩ := exists_nameFor? known marks.listed
    refine ⟨left.runs, finding.matched, right.runs, marks.word.runs_eq, by simp [misspelled], ?_,
      ?_⟩
    · rw [Text.flatten_runs]
      exact marks.inCode
    · rw [Text.flatten_runs]
      exact (Option.some.inj asked).symm
  · rintro ⟨before, run, after, split, misspelled, inCode, rfl⟩
    obtain ⟨entry, found⟩ := Option.ne_none_iff_exists'.mp misspelled
    obtain ⟨known, listed⟩ := of_nameFor? found
    have starts : run.startsWord = true := by
      obtain ⟨present, letters⟩ := letters_of_nameFor? found (.inl rfl)
      exact Text.startsWord_of_forall present fun c among => isWordChar_of_isAlpha (letters c among)
    have isWord := Text.Word.of_runs split starts
    obtain ⟨finding, member, offset, rfl⟩ := exists_finding known isWord listed inCode
    obtain ⟨left, right, marks⟩ := exists_marks known member
    refine ⟨finding, (mem_findings_iff rules text).mpr ⟨entry, known, member⟩, ?_⟩
    rw [(marks.substitution?_eq known).2, ← marks.offset, offset]

include rules in
/-- Mending by the rules writes down the respelled text, with no finding passed over. -/
theorem mend_eq_respelled :
    (checker.mend text).text = respelled text ∧ (checker.mend text).skippedOverlap = 0 ∧
      (checker.mend text).skippedStale = 0 := by
  have fixable : ∀ rule ∈ checker.catalogue.rules, rule.isFixable = true := by
    rw [rules]
    intro rule listed
    obtain ⟨entry, -, rfl⟩ := List.mem_map.mp listed
    rfl
  have apart := pairwise_findings rules text
  rw [Checker.mend_of_apart fixable text apart, Checker.accepted_of_apart fixable text apart]
  refine ⟨?_, rfl, ?_⟩
  · have walked := substituteFrom_runs (respells_accepted rules text) (List.nil_append _).symm
    rwa [Text.flatten_runs] at walked
  · refine List.countP_eq_zero.mpr fun finding member => ?_
    obtain ⟨entry, known, member⟩ := (mem_findings_iff rules text).mp member
    obtain ⟨left, right, marks⟩ := exists_marks known member
    simp [(marks.substitution?_eq known).1]

end Checker

/-- No rule has anything to report in a respelled text. -/
theorem findings?_respelled {entry : Entry} (known : entry ∈ vocabulary) (knows : Text → Bool)
    (text : Text) : entry.rule.findings? knows (respelled text) = some [] := by
  rw [findings?_rule, Option.some_inj, List.map_eq_nil_iff, List.filter_eq_nil_iff]
  intro found member inCode
  obtain ⟨left, right, captures, occurs⟩ := occurs_of_mem_allMatches member
  obtain ⟨isWord, listed⟩ := word_of_occurs known occurs
  obtain ⟨other, misspelled⟩ := exists_nameFor? known listed
  rw [occurs.start_eq, ← Text.flatten_runs left] at inCode
  rw [nameFor?_of_runs_respelled isWord.runs_eq inCode] at misspelled
  cases misspelled

/-- With the rules about spelling alone, mending passes nothing over, puts the right spelling in
the place of exactly the misspelled names in code, and leaves those rules nothing to report. -/
theorem mend_respells [Engine] (parse : Text → Verdict) (globals : Globals) (text : Text) :
    let ids := ["function-keyword-typo", "document-typo", "get-element-by-id-case"]
    let checker := Checker.keeping (fun rule => ids.contains rule.id) parse globals
    let report := checker.mend text
    checker.catalogue.rules = [functionKeyword, documentName, elementLookup] ∧
      report.skippedOverlap = 0 ∧ report.skippedStale = 0 ∧ report.text = respelled text ∧
      ∀ rule ∈ checker.catalogue.rules, rule.findings? globals.knows report.text = some [] := by
  intro ids checker report
  have rules : checker.catalogue.rules = vocabulary.map Entry.rule := rfl
  obtain ⟨written, overlap, stale⟩ := mend_eq_respelled rules text
  refine ⟨rfl, overlap, stale, written, ?_⟩
  intro rule listed
  rw [rules] at listed
  obtain ⟨entry, known, rfl⟩ := List.mem_map.mp listed
  rw [written]
  exact findings?_respelled known globals.knows text

/-- Three names in code, one in a literal, one that is part of a word, one in a comment. -/
theorem mend_respells_of_three :
    let _ : Engine := .unlimited
    let ids := ["function-keyword-typo", "document-typo", "get-element-by-id-case"]
    let checker := Checker.keeping (fun rule => ids.contains rule.id) (fun _ => .accepted) .builtin
    let text : Text :=
      "funtion é() \x7b docuemnt.getElementByID('docuemnt', docuemnts) \x7d // funtion".toList
    let report := checker.mend text
    report.text =
        "function é() \x7b document.getElementById('docuemnt', docuemnts) \x7d // funtion".toList ∧
      report.skippedOverlap = 0 ∧ report.skippedStale = 0 ∧
      documentName.findings? Globals.builtin.knows report.text = some [] := by
  intro _ ids checker text report
  obtain ⟨rules, overlap, stale, written, nothing⟩ :=
    mend_respells (fun _ => .accepted) .builtin text
  refine ⟨written.trans (by decide +kernel), overlap, stale, nothing documentName ?_⟩
  rw [rules]
  exact .tail _ (.head _)

end Spelling

end ScriptCheck
