import ScriptCheck.Proofs.Assignments
import ScriptCheck.Proofs.Occurrence

/-!
# Constants that are assigned on the next line

A constant is declared on one line, and the next one assigns it or updates it. For each name
and each form of assignment the declaration is found and reported, and the remedy turns its
keyword into that of a variable.

One form is missed. A name with a sign in front of it must end at a word edge, and a dollar
sign is no word character: behind a name that ends in one there is an edge only if a word
character follows. The update is then not seen, and the constant is not reported.
-/

namespace ScriptCheck

open Pattern Phrase

namespace Reassignment

/-- There are two signs that count a variable, one up and one down. -/
theorem mem_updates {sign : String} : sign ∈ updates ↔ sign = "++" ∨ sign = "--" := by
  simp [updates]

/-! ### The text -/

namespace Form

/-- A form as a statement on a line of its own. -/
def statement (name : Text) : Form → Text
  | ahead sign _ => sign.toList ++ name ++ ";\n".toList
  | behind sign _ => name ++ (sign.toList ++ ";\n".toList)
  | equals operator _ => name ++ (' ' :: operator.toList ++ "= 1;\n".toList)

/-- Whether the sign stands in front of the name. -/
def isAhead : Form → Bool
  | ahead _ _ => true
  | behind _ _ | equals _ _ => false

/-- What stands in front of the name in its statement. -/
def lead : Form → Text
  | ahead sign _ => sign.toList
  | behind _ _ | equals _ _ => []

/-- What stands behind the name in its statement. -/
def tail : Form → Text
  | ahead _ _ => ";\n".toList
  | behind sign _ => sign.toList ++ ";\n".toList
  | equals operator _ => ' ' :: operator.toList ++ "= 1;\n".toList

/-- A statement is what stands around the name, in all forms. -/
theorem statement_eq (name : Text) (form : Form) :
    form.statement name = form.lead ++ name ++ form.tail := by
  cases form <;> simp [statement, lead, tail]

/-- Unless the sign stands in front, a statement starts with the name. -/
theorem lead_eq_nil {form : Form} (apart : form.isAhead = false) : form.lead = [] := by
  cases form with
  | ahead _ _ => cases apart
  | behind _ _ => rfl
  | equals _ _ => rfl

/-- Beside the name, no name starts in its statement. -/
theorem startsName_eq_false {form : Form} {c : Char} (listed : c ∈ form.lead ++ form.tail) :
    startsName c = false := by
  have signs : (updates.all fun sign => (sign.toList ++ ";\n".toList).all fun c => !startsName c) =
      true := by decide
  have symbols : (operators.all fun operator => (' ' :: operator.toList ++ "= 1;\n".toList).all
      fun c => !startsName c) = true := by decide
  rw [← Bool.not_eq_true']
  cases form with
  | ahead sign member => exact List.all_eq_true.mp (List.all_eq_true.mp signs sign member) c listed
  | behind sign member => exact List.all_eq_true.mp (List.all_eq_true.mp signs sign member) c listed
  | equals operator member =>
    exact List.all_eq_true.mp (List.all_eq_true.mp symbols operator member) c listed

end Form

/-- A declaration with a keyword, through its equals sign. -/
def declaring (keyword : String) (name : Text) : Text :=
  keyword.toList ++ (' ' :: name ++ " =".toList)

/-- A declaration with a keyword and, on the next line, an assignment. -/
def reassigning (keyword : String) (name : Text) (form : Form) : Text :=
  declaring keyword name ++ (" 0;\n".toList ++ form.statement name)

/-! ### The declaration -/

/-- No blank has a name behind it. -/
def Spaced : Text → Prop :=
  List.IsChain fun c next => among " \t" c = true → startsName next = false

variable {front name ahead gap after : Text} {form : Form}

/-- Spaced texts make up one if the first ends in no blank. -/
theorem spaced_append {back : Text} (first : Spaced front) (second : Spaced back)
    (ends : ∀ c ∈ front.getLast?, among " \t" c = false) : Spaced (front ++ back) := by
  refine List.isChain_append.mpr ⟨first, second, fun c last _ _ blank => ?_⟩
  rw [ends c last] at blank
  cases blank

/-- A name has no blanks, and so none with a name behind it. -/
theorem spaced_of_isName (named : isName name = true) :
    Spaced name ∧ ∀ c ∈ name.getLast?, among " \t" c = false := by
  have part (c : Char) (listed : c ∈ name) : among " \t" c = false := by
    refine Bool.eq_false_iff.mpr fun blank => ?_
    have other : continuesName c = false := Line.of_among continuesName blank (by decide)
    rw [continuesName_of_isName named c listed] at other
    cases other
  refine ⟨(List.pairwise_of_forall_mem_list fun c listed _ _ blank => ?_).isChain,
    fun c last => part c (List.mem_of_getLast? last)⟩
  rw [part c listed] at blank
  cases blank

/-- Where no name starts, none stands behind a blank. -/
theorem spaced_of_quiet {text : Text} (quiet : ∀ c ∈ text, startsName c = false) :
    Spaced text := by
  refine (List.pairwise_of_forall_mem_list ?_).isChain
  exact fun _ _ d listed _ => quiet d listed

/-- From the name on, no blank of the text has a name behind it: only the keyword is followed by
one. -/
theorem spaced_behind (named : isName name = true) (form : Form) :
    Spaced (name ++ (" = 0;\n".toList ++ form.lead ++ (name ++ form.tail))) := by
  obtain ⟨spaced, ends⟩ := spaced_of_isName named
  have quiet : (" = 0;\n".toList.all fun c => !startsName c) = true := by decide
  refine spaced_append spaced (spaced_append ?_ (spaced_append spaced ?_ ends) ?_) ends
  · refine spaced_of_quiet fun c listed => ?_
    rcases List.mem_append.mp listed with first | second
    · simpa using List.all_eq_true.mp quiet c first
    · exact Form.startsName_eq_false (List.mem_append_left _ second)
  · exact spaced_of_quiet fun c listed => Form.startsName_eq_false (List.mem_append_right _ listed)
  · intro c last
    cases form with
    | ahead sign listed =>
      rcases mem_updates.mp listed with rfl | rfl <;> simp [Form.lead] at last <;>
        (subst last; decide)
    | _ =>
      simp [Form.lead] at last
      subst last
      decide

/-- In a text that starts with a keyword and a blank, that blank is the one with a name behind
it, if all others have none. -/
theorem keyword_unique {back rest : Text} {c next : Char} (spaced : Spaced rest)
    (same : "const".toList ++ ' ' :: rest = front ++ c :: next :: back)
    (blank : among " \t" c = true) (starts : startsName next = true) : front = "const".toList := by
  rcases List.append_eq_append_iff.mp same with ⟨inner, rfl, split⟩ | ⟨inner, keyword, split⟩
  · cases inner with
    | nil => rfl
    | cons d inner =>
      obtain ⟨rfl, rfl⟩ := List.cons.inj split
      have link := (List.isChain_append.mp spaced).2.1
      rw [(List.isChain_cons_cons.mp link).1 blank] at starts
      cases starts
  · cases inner with
    | nil => simpa using keyword.symm
    | cons d inner =>
      obtain ⟨rfl, -⟩ := List.cons.inj split
      have letters : ("const".toList.all fun c => !among " \t" c) = true := by decide
      have letter := List.all_eq_true.mp letters c (by simp [keyword])
      rw [blank] at letter
      cases letter

/-- The text has one declaration, at its start, since only there a blank has a name behind it. -/
theorem occurs_declaration {left right : Text} {found : Match} {captures : List Capture}
    (named : isName name = true)
    (occurs : found.Occurs declaration (reassigning "const" name form) left right captures) :
    left = [] ∧ found.body = declaring "const" name ∧ captured captures 1 = some name := by
  obtain ⟨-, blanks, name', gap, ⟨present, blank⟩, named', blank', body, rfl⟩ :=
    fits_declaration.mp occurs.fits
  obtain ⟨front, last, rfl⟩ := (List.eq_nil_or_concat blanks).resolve_left present
  obtain ⟨c, more, rfl⟩ := List.exists_cons_of_ne_nil (ne_nil_of_isName named')
  have whole : "const".toList ++ ' ' :: (name ++ (" = 0;\n".toList ++ form.lead ++
      (name ++ form.tail))) =
      (left ++ ("const".toList ++ front)) ++ last :: c :: (more ++ (gap ++ '=' :: right)) := by
    simpa [reassigning, declaring, form.statement_eq name, body] using occurs.whole
  have starts : startsName c = true := by
    rw [isName, Bool.and_eq_true] at named'
    exact named'.1
  have place := keyword_unique (spaced_behind named form) whole (blank last (by simp)) starts
  obtain ⟨rfl, rfl⟩ : left = [] ∧ front = [] := by
    have length := congrArg List.length place
    rw [List.length_append, List.length_append] at length
    exact ⟨List.length_eq_zero_iff.mp (by omega), List.length_eq_zero_iff.mp (by omega)⟩
  obtain ⟨rfl, read⟩ := List.cons.inj (List.append_cancel_left whole)
  have stops : (gap ++ '=' :: right).head?.any continuesName = false := by
    cases gap with
    | nil =>
      show continuesName '=' = false
      decide
    | cons d gap => exact Line.of_among continuesName (blank' d (by simp)) (by decide)
  obtain ⟨rfl, read'⟩ := Text.run_unique read (continuesName_of_isName named)
    (continuesName_of_isName named') (by simp +decide) stops
  have gapped : [' '] ++ ("= 0;\n".toList ++ form.lead ++ (c :: more ++ form.tail)) =
      gap ++ '=' :: right := read'
  obtain ⟨rfl, -⟩ := Text.run_unique gapped (List.forall_mem_singleton.mpr (by decide)) blank'
    (show among " \t" '=' = false by decide) (show among " \t" '=' = false by decide)
  exact ⟨rfl, by simpa [declaring] using body, rfl⟩

/-! ### The assignment -/

/-- Behind the declaration the name stands only in its statement, if it is to start afresh. -/
theorem name_unique {rest : Text} (named : isName name = true)
    (same : " 0;\n".toList ++ form.lead ++ (name ++ form.tail) = front ++ (name ++ rest))
    (clear : ∀ c ∈ front.getLast?, continuesName c = false) :
    front = " 0;\n".toList ++ form.lead ∧ rest = form.tail := by
  have quiet : (" 0;\n".toList.all fun c => !startsName c) = true := by decide
  have place : front = " 0;\n".toList ++ form.lead := by
    have parts := continuesName_of_isName named
    obtain ⟨c, more, rfl⟩ := List.exists_cons_of_ne_nil (ne_nil_of_isName named)
    rw [isName, Bool.and_eq_true] at named
    refine start_unique same named.1 clear parts ?_ fun d listed =>
      Form.startsName_eq_false (List.mem_append_right _ listed)
    intro d listed
    rcases List.mem_append.mp listed with first | second
    · simpa using List.all_eq_true.mp quiet d first
    · exact Form.startsName_eq_false (List.mem_append_left _ second)
  subst place
  exact ⟨rfl, (List.append_cancel_left (List.append_cancel_left same)).symm⟩

/-- A sign in front of the name is that of the statement, which then has its sign in front. -/
theorem sign_unique {sign : String} (listed : sign ∈ updates)
    (blank : ∀ c ∈ gap, among " \t" c = true)
    (same : ahead ++ (sign.toList ++ gap) = " 0;\n".toList ++ form.lead) :
    ahead = " 0;\n".toList ∧ form.isAhead = true := by
  have apart : ahead ++ (sign.toList ++ gap) ≠ " 0;\n".toList := by
    intro same
    have inside : ∀ c ∈ sign.toList, c ∈ " 0;\n".toList := by simp +contextual [← same]
    rcases mem_updates.mp listed with rfl | rfl
    · exact absurd (inside '+' (by decide)) (by decide)
    · exact absurd (inside '-' (by decide)) (by decide)
  cases form with
  | ahead sign' listed' =>
    obtain rfl : gap = [] := by
      rcases List.eq_nil_or_concat gap with rfl | ⟨gap, last, rfl⟩
      · rfl
      · have ends := congrArg List.getLast? same
        have blank := blank last (by simp)
        rcases mem_updates.mp listed' with rfl | rfl <;>
          simp [Form.lead, ← List.append_assoc] at ends <;>
          (subst ends; exact absurd blank (by decide))
    rw [List.append_nil] at same
    have equal : sign.toList.length = sign'.toList.length := by
      rcases mem_updates.mp listed with rfl | rfl <;>
        rcases mem_updates.mp listed' with rfl | rfl <;> rfl
    exact ⟨(List.append_inj' same equal).1, rfl⟩
  | behind _ _ => exact absurd (by simpa [Form.lead] using same) apart
  | equals _ _ => exact absurd (by simpa [Form.lead] using same) apart

/-- A symbol behind the name is that of the statement, which then has its sign behind the name. -/
theorem isAhead_of_tail {symbol : Text} (present : symbol ≠ [])
    (blank : ∀ c ∈ gap, among " \t" c = true) (apart : ';' ∉ symbol)
    (same : gap ++ (symbol ++ after) = form.tail) : form.isAhead = false := by
  cases form with
  | behind _ _ => rfl
  | equals _ _ => rfl
  | ahead _ _ =>
    rw [Form.tail] at same
    cases gap with
    | nil =>
      obtain ⟨c, symbol, rfl⟩ := List.exists_cons_of_ne_nil present
      simp at same
      simp [same.1] at apart
    | cons c gap =>
      obtain ⟨rfl, -⟩ := List.cons.inj same
      exact absurd (blank _ (.head _)) (by decide)

/-- An assignment found behind the declaration is the one of the statement. With a sign in front,
the name does not end in a dollar sign. -/
theorem place_of_reassigns {form' : Form} (named : isName name = true)
    (reassigns : Reassigns (reassigning "const" name form) name (declaring "const" name ++ ahead)
      form' gap after) :
    ahead = " 0;\n".toList ∧ (form.isAhead = true → name.getLast? ≠ some '$') := by
  have whole : " 0;\n".toList ++ form.lead ++ (name ++ form.tail) =
      ahead ++ (form'.written name gap ++ after) := by
    have whole := reassigns.whole
    rw [reassigning, List.append_assoc, List.append_assoc] at whole
    simpa [form.statement_eq name] using List.append_cancel_left whole
  have behind {symbol : Text} (present : symbol ≠ []) (apart : ';' ∉ symbol)
      (written : form'.written name gap = name ++ gap ++ symbol) :
      ahead = " 0;\n".toList ∧ (form.isAhead = true → name.getLast? ≠ some '$') := by
    have clear : ∀ d ∈ ahead.getLast?, continuesName d = false := fun d last =>
      (reassigns.clear d (by simp_all [List.getLast?_append])).1
    rw [written, List.append_assoc, List.append_assoc, List.append_assoc] at whole
    obtain ⟨rfl, rest⟩ := name_unique named whole clear
    have apart := isAhead_of_tail present reassigns.blank apart rest
    exact ⟨by rw [Form.lead_eq_nil apart, List.append_nil], by simp [apart]⟩
  cases form' with
  | ahead sign listed =>
    have regroup : " 0;\n".toList ++ form.lead ++ (name ++ form.tail) =
        (ahead ++ (sign.toList ++ gap)) ++ (name ++ after) := by
      simpa [Form.written] using whole
    have clear : ∀ c ∈ (ahead ++ (sign.toList ++ gap)).getLast?, continuesName c = false := by
      intro c last
      rcases List.eq_nil_or_concat gap with rfl | ⟨gap, d, rfl⟩
      · rcases mem_updates.mp listed with rfl | rfl <;> simp at last <;> (subst last; decide)
      · obtain rfl : d = c := by simpa [← List.append_assoc] using last
        exact Line.of_among continuesName (reassigns.blank d (by simp)) (by decide)
    obtain ⟨front, rfl⟩ := name_unique named regroup clear
    obtain ⟨rfl, signed⟩ := sign_unique listed reassigns.blank front
    refine ⟨rfl, fun _ last => ?_⟩
    have ends := reassigns.ends
    rw [Form.mayPrecede, last] at ends
    cases form with
    | ahead _ _ => cases ends
    | behind _ _ => cases signed
    | equals _ _ => cases signed
  | behind sign listed =>
    rcases mem_updates.mp listed with rfl | rfl <;> exact behind (by decide) (by decide) rfl
  | equals operator listed =>
    have apart : (operators.all fun operator => !(operator.toList ++ ['=']).contains ';') =
        true := by decide
    exact behind (by simp) (by simpa using List.all_eq_true.mp apart operator listed) rfl

/-! ### The finding -/

/-- A statement is its form as it is written, and the end of a line. The sign in front needs a word
edge behind the name. -/
theorem exists_written (named : isName name = true) (form : Form) :
    ∃ gap value, (∀ c ∈ gap, among " \t" c = true) ∧ value ∈ ["", " 1"] ∧
      form.statement name = form.written name gap ++ (value.toList ++ ";\n".toList) ∧
      ((form.isAhead = true → name.getLast? ≠ some '$') →
        form.mayPrecede name (value.toList ++ ";\n".toList).head? = true) := by
  cases form with
  | ahead sign listed =>
    refine ⟨[], "", by simp, by simp, by simp [Form.statement, Form.written], fun reached => ?_⟩
    obtain ⟨front, last, rfl⟩ := (List.eq_nil_or_concat name).resolve_left (ne_nil_of_isName named)
    have part := continuesName_of_isName named last (by simp)
    have other : last ≠ '$' := by simpa using reached rfl
    have letter : isWordChar last = true := by simpa [continuesName, other] using part
    have ends : isWordChar ';' = false := by decide
    simp [Form.mayPrecede, letter, ends]
  | behind sign listed =>
    exact ⟨[], "", by simp, by simp, by simp [Form.statement, Form.written], fun _ => rfl⟩
  | equals operator listed =>
    exact ⟨[' '], " 1", by simp [among], by simp, by simp [Form.statement, Form.written],
      fun _ => by simp +decide [Form.mayPrecede]⟩

/-- A stretch of plain characters and newlines in code is code from start to end. -/
theorem marked_code {body rest : Text} (calm : ∀ c ∈ body, Mode.isPlain c = true ∨ c = '\n') :
    Mode.Marked true .code body rest ∧ Mode.code.after body = .code := by
  induction body with
  | nil => exact ⟨trivial, rfl⟩
  | cons c body ih =>
    obtain ⟨first, others⟩ := List.forall_mem_cons.mp calm
    obtain ⟨marked, after⟩ := ih others
    have stays : Mode.code.step c = .code ∧ ∀ next, Mode.code.showsCode c next = true := by
      rcases first with plain | rfl
      · exact ⟨Mode.step_of_isPlain plain trivial, Mode.showsCode_of_isPlain plain .code⟩
      · exact ⟨by decide, fun _ => rfl⟩
    rw [Mode.after_cons, Mode.Marked, stays.1]
    exact ⟨⟨stays.2 _, marked⟩, after⟩

/-- All of the text is code, as it has no quotes, comment marks or backslashes. -/
theorem isCodeAt_reassigning (named : isName name = true) (form : Form) {offset : Nat}
    (inside : offset < (reassigning "const" name form).width) :
    (reassigning "const" name form).isCodeAt offset = true := by
  obtain ⟨gap, value, blank, listed, statement, -⟩ := exists_written named form
  have plain : ∀ c ∈ name, Mode.isPlain c = true := fun c listed =>
    isPlain_of_continuesName (continuesName_of_isName named c listed)
  have first : ∀ c ∈ declaring "const" name ++ " 0;\n".toList,
      Mode.isPlain c = true ∨ c = '\n' := by
    have around : ("const ".toList ++ " = 0;\n".toList).all (fun c => Mode.isPlain c || c == '\n') =
        true := by decide
    intro c listed
    by_cases inName : c ∈ name
    · exact .inl (plain c inName)
    · simpa using List.all_eq_true.mp around c (by simpa [declaring, inName] using listed)
  have last : ∀ c ∈ value.toList ++ ";\n".toList, Mode.isPlain c = true ∨ c = '\n' := by
    have ends : (["", " 1"].all fun value => (value.toList ++ ";\n".toList).all fun c =>
        Mode.isPlain c || c == '\n') = true := by decide
    intro c inside
    simpa using List.all_eq_true.mp (List.all_eq_true.mp ends value listed) c inside
  have marked : Mode.Marked true .code (reassigning "const" name form) [] := by
    rw [reassigning, ← List.append_assoc, statement]
    have settled := (@marked_code _ [] first).2
    refine Mode.marked_append.mpr ⟨(marked_code first).1, ?_⟩
    rw [settled]
    have proper : Mode.Proper .code := trivial
    refine Mode.marked_append.mpr ⟨(marked_written proper named blank form _).1, ?_⟩
    rw [(marked_written proper named blank form []).2]
    exact (marked_code last).1
  have whole := @Text.isCodeAt_of_marked [] _ [] _ marked offset (Nat.zero_le _) inside
  rwa [List.nil_append, List.append_nil] at whole

/-- No keyword ends a statement: in front of the newline there is a semicolon. -/
theorem not_declares_of_semicolon (front : Text) : ¬Declares (front ++ ";\n".toList) := by
  have split : front ++ ";\n".toList = (front ++ [';']) ++ ['\n'] := by simp
  have trimmed : Text.trimEnd (front ++ ";\n".toList) = front ++ [';'] := by
    rw [split]
    exact Text.trimEnd_append (List.forall_mem_singleton.mpr (by decide)) (by simp +decide)
      (by simp)
  rw [← declares_iff, declares, trimmed]
  simp only [List.any_eq_true, Bool.and_eq_true, not_exists, not_and, Text.endsWith,
    List.isSuffixOf_iff_suffix]
  rintro keyword listed ⟨rest, same⟩
  have ends := congrArg List.getLast? same
  simp only [List.mem_cons, List.not_mem_nil, or_false] at listed
  rcases listed with rfl | rfl | rfl <;> simp at ends

/-- The search for assignments finds the statement, unless its sign is in front and the name ends in
a dollar sign. -/
theorem exists_assigned (named : isName name = true) (form : Form)
    (reached : form.isAhead = true → name.getLast? ≠ some '$') :
    ∃ assigned,
      assigned ∈ (assignmentTo name).allMatches (" 0;\n".toList ++ form.statement name) := by
  obtain ⟨gap, value, blank, -, statement, precedes⟩ := exists_written named form
  have clears : Clears " 0;".toList.reverse ['\n'] := .inr ⟨'\n', by decide, rfl⟩
  rw [exists_mem_allMatches_iff, statement]
  obtain ⟨shown, after, rest, taken⟩ : ∃ shown after,
      value.toList ++ ";\n".toList = shown ++ after ∧ form.shown (shown ++ after) = shown := by
    rcases form.shown_cases (value.toList ++ ";\n".toList) with none | ⟨c, more, one, rest⟩
    · exact ⟨[], value.toList ++ ";\n".toList, rfl, none⟩
    · exact ⟨[c], more, rest, by rwa [rest] at one⟩
  rw [rest] at precedes ⊢
  exact ⟨" 0;".toList, _, after, _, by simp, (fits_assignmentTo (ne_nil_of_isName named)).mpr
    ⟨['\n'], form, gap, shown, clears, blank, precedes reached, taken, rfl, rfl⟩⟩

/-- The only match of a declaration in the text. -/
structure Declaration (name : Text) (form : Form) (found : Match) : Prop where
  only : declaration.allMatches (reassigning "const" name form) = [found]
  start : found.start = 0
  body : found.body = declaring "const" name
  group : Block.groupText? found.texts 1 = some name
  behind : found.whole.stop.after = " 0;\n".toList ++ form.statement name
  stop : found.stop = (declaring "const" name).width
  width : found.whole.width = (declaring "const" name).width

/-- The search for declarations finds the one of the text, and no other. -/
theorem exists_declaration (named : isName name = true) (form : Form) :
    ∃ found, Declaration name form found := by
  have fits : declaration.Fits [].reverse (declaring "const" name)
      (" 0;\n".toList ++ form.statement name) [⟨1, _, name⟩] :=
    fits_declaration.mpr ⟨rfl, [' '], name, [' '], ⟨by simp, by simp [among]⟩, named,
      by simp [among], by simp [declaring], rfl⟩
  obtain ⟨found, member⟩ := exists_mem_allMatches_iff.mpr ⟨[], _, _, _, rfl, fits⟩
  have start {found : Match}
      (member : found ∈ declaration.allMatches (reassigning "const" name form)) :
      found.start = 0 := by
    obtain ⟨left, right, captures, occurs⟩ := occurs_of_mem_allMatches member
    obtain ⟨rfl, -⟩ := occurs_declaration named occurs
    exact occurs.start_eq
  have first := start member
  obtain ⟨left, right, captures, occurs⟩ := occurs_of_mem_allMatches member
  obtain ⟨rfl, body, taken⟩ := occurs_declaration named occurs
  refine ⟨found, allMatches_eq_singleton member fun other listed => (start listed).trans first.symm,
    first, body, ?_, ?_, ?_, by rw [occurs.width_eq, body]⟩
  · rw [Block.groupText?_of_occurs occurs Nat.one_pos (by decide), taken]
  · have whole : reassigning "const" name form = declaring "const" name ++ right :=
      body ▸ occurs.whole
    rw [occurs.after, List.append_cancel_left whole]
  · rw [occurs.stop_eq, body]
    simp

/-- An assignment in the text counts: all of it is code, and what it assigns is not declared
there. -/
theorem counts_of_reassigns {form' : Form} (named : isName name = true)
    (reassigns : Reassigns (reassigning "const" name form) name (declaring "const" name ++ ahead)
      form' gap after) :
    Counts (reassigning "const" name form) name (declaring "const" name ++ ahead) form' gap
      after := by
  have inCode {offset : Nat} (inside : offset < (reassigning "const" name form).width) :=
    isCodeAt_reassigning named form inside
  have total : (reassigning "const" name form).width =
      (declaring "const" name ++ ahead ++ form'.written name gap).width + after.width := by
    rw [← Text.width_append, ← reassigns.whole]
  refine ⟨reassigns, ?_, ?_, .inl ?_⟩
  · have split : declaring "const" name ++ " 0;\n".toList =
        (declaring "const" name ++ " 0".toList) ++ ";\n".toList := by simp
    rw [(place_of_reassigns named reassigns).1, split]
    exact not_declares_of_semicolon _
  · intro c shown
    have wide : 0 < after.width := by
      rcases form'.shown_cases after with none | ⟨d, more, -, rfl⟩
      · simp [none] at shown
      · have positive := d.utf8Size_pos
        rw [Text.width_cons]
        omega
    exact inCode (by omega)
  · intro offset _ last
    exact inCode (by omega)

/-- The declaration is reported if the engine takes the pattern for assignments to the name, unless
the name stands behind its sign and ends in a dollar sign, which is no word character. -/
theorem Declaration.isReported_iff [Engine] {found : Match} (declared : Declaration name form found)
    (named : isName name = true) :
    isReported (reassigning "const" name form) found = true ↔
      Engine.takes (assignmentTo name) = true ∧
        (form.isAhead = true → name.getLast? ≠ some '$') := by
  have member : found ∈ declaration.allMatches (reassigning "const" name form) := by
    simp [declared.only]
  obtain ⟨name', group, holds⟩ := Reassignment.isReported_iff member
  obtain rfl : name = name' := Option.some.inj (declared.group.symm.trans group)
  rw [holds]
  constructor
  · rintro ⟨-, taken, assigned, -, target, front, form', gap, after, -, place, -, counts⟩
    have whole := counts.whole
    rw [reassigning, List.append_assoc front] at whole
    have stop := declared.stop
    obtain ⟨ahead, rfl, -⟩ := Text.exists_gap_of_width_le whole (by omega)
    exact ⟨taken, (place_of_reassigns named counts.toReassigns).2⟩
  · rintro ⟨taken, reached⟩
    have ends : (declaring "const" name).getLast? = some '=' :=
      List.getLast?_eq_some_iff.mpr ⟨"const ".toList ++ (name ++ [' ']), by simp [declaring]⟩
    obtain ⟨assigned, listed⟩ := exists_assigned named form reached
    obtain ⟨target, form', gap, after, group, body, reassigns⟩ :=
      exists_reassigns rfl ends named listed
    refine ⟨?_, taken, assigned, declared.behind ▸ listed, target, _, form', gap, after, group, ?_,
      body, counts_of_reassigns named reassigns⟩
    · rw [declared.start]
      refine isCodeAt_reassigning named form (Nat.pos_of_ne_zero ?_)
      exact mt (Text.width_eq_zero_iff _).mp (by simp [reassigning])
    · rw [declared.stop, Text.width_append, Text.width_reverse, target.start.placed]

end Reassignment

/-- The remedy of the only finding is applied where its match stands. -/
theorem Repair.run_singleton {text left right new : Text} {finding : Finding}
    (whole : text = left ++ finding.matched ++ right) (offset : left.width = finding.offset)
    (length : finding.matched.width = finding.length) (replaced : finding.replacement? = some new)
    (changes : new ≠ finding.matched) :
    Repair.run text [finding] =
      { text := left ++ new ++ right, applied := 1, skippedOverlap := 0, skippedStale := 0 } := by
  have fixable : finding.isFixable = true := by
    cases remedy : finding.remedy with
    | none => simp [Finding.replacement?, remedy] at replaced
    | some _ => simp [Finding.isFixable, remedy]
  have cut := (Text.cut?_eq_some_iff text left finding.matched right _ _).mpr
    ⟨whole, offset, length⟩
  simp [Repair.run, fixable, Repair.accept, Repair.applyOne, cut, replaced, changes]

namespace Reassignment

/-- The remedy changes the keyword of the declaration and nothing else, so that the text declares a
variable instead. -/
theorem Declaration.run_eq [Engine] {name : Text} {form : Form} {found : Match}
    (declared : Declaration name form found) :
    Repair.run (reassigning "const" name form)
        [constant.finding (reassigning "const" name form) found] =
      { text := reassigning "let" name form, applied := 1, skippedOverlap := 0,
        skippedStale := 0 } := by
  set finding := constant.finding (reassigning "const" name form) found with same
  have matched : finding.matched = declaring "const" name := declared.body
  have replaced : finding.replacement? = some (declaring "let" name) := by
    show declareVariable finding.matched finding.groups = _
    rw [matched]
    simp [declareVariable, declaring, Text.startsWith]
  have changes : declaring "let" name ≠ finding.matched := by
    rw [matched]
    simp [declaring]
  have length : finding.matched.width = finding.length := by
    rw [matched]
    exact declared.width.symm
  have whole : reassigning "const" name form =
      [] ++ finding.matched ++ (" 0;\n".toList ++ form.statement name) := by
    rw [matched, List.nil_append, reassigning]
  rw [Repair.run_singleton whole declared.start.symm length replaced changes, List.nil_append,
    reassigning]

/-- A constant that the next line assigns or updates is reported, and the remedy declares it as
a variable and changes nothing else. There are two exceptions: a name whose assignments the
engine does not search for, and a name behind its sign that ends in a dollar sign, since there
is no word edge behind it. -/
theorem constant_reports_reassigned [Engine] (known : Text → Bool) (name : Text)
    (named : isName name = true) (form : Form) :
    ∃ findings, constant.findings? known (reassigning "const" name form) = some findings ∧
      (findings = [] ↔ Engine.takes (assignmentTo name) = false ∨
        form.isAhead = true ∧ name.getLast? = some '$') ∧
      ∀ finding ∈ findings, findings = [finding] ∧ finding.offset = 0 ∧
        finding.matched = declaring "const" name ∧
        Block.groupText? finding.groups 1 = some name ∧
        Repair.run (reassigning "const" name form) findings =
          { text := reassigning "let" name form, applied := 1, skippedOverlap := 0,
            skippedStale := 0 } := by
  obtain ⟨found, declared⟩ := exists_declaration named form
  have reported := declared.isReported_iff named
  refine ⟨_, findings?_constant known _, ?_, ?_⟩
  · rw [declared.only, List.map_eq_nil_iff, List.filter_eq_nil_iff]
    simp only [List.mem_singleton, forall_eq, reported, not_and_or, Classical.not_imp, ne_eq,
      not_not]
    rw [Bool.not_eq_true]
  · intro finding listed
    rw [declared.only] at listed ⊢
    obtain ⟨other, accepted, rfl⟩ := List.mem_map.mp listed
    obtain ⟨one, holds⟩ := List.mem_filter.mp accepted
    obtain rfl : found = other := (List.mem_singleton.mp one).symm
    rw [List.filter_cons_of_pos holds, List.filter_nil, List.map_singleton]
    exact ⟨rfl, declared.start, declared.body, declared.group, declared.run_eq⟩

/-- A shift, and a name with a character that is not ASCII and with a dollar sign at its end. -/
theorem constant_reports_reassigned_shift :
    let _ : Engine := .unlimited
    let name := "aé$".toList
    isName name = true ∧ ∃ finding,
      constant.findings? (fun _ => false) "const aé$ = 0;\naé$ >>>= 1;\n".toList = some [finding] ∧
      (Repair.run "const aé$ = 0;\naé$ >>>= 1;\n".toList [finding]).text =
        "let aé$ = 0;\naé$ >>>= 1;\n".toList := by
  intro _ name
  have named : isName "aé$".toList = true := by decide +kernel
  obtain ⟨findings, result, silent, each⟩ :=
    constant_reports_reassigned (fun _ => false) "aé$".toList named (.equals ">>>" (by decide))
  have present : findings ≠ [] := by
    intro empty
    rcases silent.mp empty with refused | ⟨ahead, -⟩
    · cases refused
    · cases ahead
  obtain ⟨finding, others, rfl⟩ := List.exists_cons_of_ne_nil present
  obtain ⟨one, -, -, -, run⟩ := each finding (.head _)
  rw [one] at run result
  exact ⟨named, finding, result, congrArg Report.text run⟩

/-- The increment of such a name is missed: behind its dollar sign there is no word edge before the
semicolon. -/
theorem constant_misses_increment :
    let _ : Engine := .unlimited
    isName "a$".toList = true ∧
      reassigning "const" "a$".toList (.ahead "++" (by decide)) =
        "const a$ = 0;\n++a$;\n".toList ∧
      (constant.findings? (fun _ => false) "const a$ = 0;\n++a$;\n".toList).map List.length =
        some 0 := by
  decide +kernel

end Reassignment

end ScriptCheck
