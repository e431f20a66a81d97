import ScriptCheck.Proofs.Crlf.FreshNames
import ScriptCheck.Catalogue

/-!
# Phrases and carriage returns

Most pieces that the patterns of the rules are built from stay within a line. Such a
pattern is steady: it commutes with carriage returns and does not match in front of a newline. The
blanks between such pieces may go over line ends, but behind them stands a steady pattern
again, so that a list of pieces that starts with a steady one is steady as a whole. The
lemmas about lists of pieces follow this from right to left.
-/

namespace ScriptCheck

namespace Pattern

open Phrase

/-- The pattern has the same ends in the CRLF text, and none in front of a newline. -/
structure Steady (pattern : Pattern) : Prop where
  commutes : pattern.Commutes
  shuns : pattern.Shuns

variable {first second inner : Pattern} {rest : List Pattern}

/-- A character of a class without line ends is steady. -/
theorem steady_char {accepts : Char → Bool} (cr : accepts '\r' = false)
    (newline : accepts '\n' = false) : (char accepts).Steady :=
  ⟨commutes_char cr newline, shuns_char newline⟩

/-- A word without line ends is steady. -/
theorem steady_word {text : Text} (present : text ≠ [])
    (inLine : ∀ c ∈ text, c ≠ '\r' ∧ c ≠ '\n') : (word text).Steady :=
  ⟨commutes_word inLine, shuns_word present fun c listed => (inLine c listed).2⟩

/-- Whether a text is not empty and has no line end. -/
def isInLine (text : String) : Bool :=
  !text.toList.isEmpty && text.toList.all fun c => c != '\r' && c != '\n'

/-- What the test of a literal text says. -/
theorem of_isInLine {text : String} (inLine : isInLine text = true) :
    text.toList ≠ [] ∧ ∀ c ∈ text.toList, c ≠ '\r' ∧ c ≠ '\n' := by
  obtain ⟨present, all⟩ := Bool.and_eq_true_iff.mp inLine
  refine ⟨by simpa using present, fun c listed => ?_⟩
  simpa using List.all_eq_true.mp all c listed

/-- A literal text without line ends is steady. -/
theorem steady_lit {text : String} (inLine : isInLine text = true) : (lit text).Steady :=
  steady_word (of_isInLine inLine).1 (of_isInLine inLine).2

/-- A literal without line ends never stops behind a newline. -/
theorem endsInLine_lit {text : String} (inLine : isInLine text = true) : (lit text).EndsInLine :=
  endsInLine_word (of_isInLine inLine).1 fun c listed => ((of_isInLine inLine).2 c listed).2

/-- A group around a steady pattern is steady. -/
theorem Steady.group (number : Nat) (steady : inner.Steady) : (group number inner).Steady :=
  ⟨commutes_group number steady.commutes, shuns_group number steady.shuns⟩

/-- A choice between steady patterns is steady. -/
theorem Steady.either (steady : first.Steady) (steady' : second.Steady) :
    (either first second).Steady :=
  ⟨commutes_either steady.commutes steady'.commutes, shuns_either steady.shuns steady'.shuns⟩

/-- A choice of any number of steady patterns is steady. -/
theorem steady_choice {patterns : List Pattern} (each : ∀ pattern ∈ patterns, pattern.Steady) :
    (choice patterns).Steady :=
  ⟨commutes_choice fun pattern listed => (each pattern listed).commutes,
    shuns_choice fun pattern listed => (each pattern listed).shuns⟩

/-- A choice of literals without line ends is steady. -/
theorem steady_litOf {texts : List String} (inLine : texts.all isInLine = true) :
    (litOf texts).Steady := by
  refine steady_choice fun pattern listed => ?_
  obtain ⟨text, among, rfl⟩ := List.mem_map.mp listed
  exact steady_lit (List.all_eq_true.mp inLine text among)

/-! ### Lists of pieces -/

/-- A sequence is steady if its first pattern is and its rest commutes. -/
theorem Steady.cons (steady : first.Steady) (commutes : (sequence rest).Commutes) :
    (sequence (first :: rest)).Steady :=
  ⟨commutes_sequence_cons steady.commutes commutes, shuns_sequence steady.shuns rest⟩

/-- A steady pattern alone is a steady sequence. -/
theorem Steady.alone (steady : first.Steady) : (sequence [first]).Steady := steady

/-- A steady pattern and one that commutes are steady in a row. -/
theorem Steady.seq (steady : first.Steady) (commutes : second.Commutes) :
    (seq first second).Steady :=
  ⟨commutes_seq steady.commutes commutes, fun reading newline => by
    rw [ends, steady.shuns reading newline, List.flatMap_nil]⟩

/-- Whatever settles commutes together with a steady rest. -/
theorem Steady.behind (steady : (sequence rest).Steady) (settles : first.Settles) :
    (sequence (first :: rest)).Commutes :=
  commutes_sequence_of_settles settles steady.commutes steady.shuns

/-- An edge of a word in front of a steady rest keeps it steady. -/
theorem Steady.behind_edge (steady : (sequence rest).Steady) : (sequence (edge :: rest)).Steady :=
  ⟨commutes_sequence_cons commutes_edge steady.commutes, shuns_sequence_anchor _ steady.shuns⟩

/-- A run without line ends keeps a steady rest steady. -/
theorem Steady.behind_run (steady : (sequence rest).Steady) (greedy : Bool) {accepts : Char → Bool}
    (cr : accepts '\r' = false) (newline : accepts '\n' = false) :
    (sequence (run greedy accepts :: rest)).Steady :=
  ⟨commutes_sequence_cons (commutes_run greedy cr newline) steady.commutes,
    shuns_sequence_run greedy newline steady.shuns⟩

/-- A piece that may be left out in front of a steady rest. -/
theorem Steady.behind_optional (steady : (sequence rest).Steady) (settles : inner.Settles)
    (shuns : inner.Shuns) : (sequence (optional inner :: rest)).Steady := by
  refine ⟨steady.behind (settles_either settles (settles_of_commutes commutes_empty)), ?_⟩
  intro reading newline
  rw [ends_sequence_cons, optional, ends, ends, shuns reading newline]
  simp [steady.shuns reading newline]

/-! ### Phrases -/

/-- A run of any number is one of at least one, or none. -/
theorem ends_many_cons {accepts : Char → Bool} {reading : Reading} {c : Char} {rest : Text}
    (ahead : reading.cursor.after = c :: rest) :
    (many accepts).ends reading = (many1 accepts).ends reading ++ [reading] := by
  have next : (reading.cursor.pass c rest).after = rest := rfl
  cases accepted : accepts c <;> simp [many1, many, ends, ahead, stops, accepted, next]

/-- A run of at least one takes the next character and a run. -/
theorem ends_many1 {accepts : Char → Bool} {reading : Reading} {c : Char} {rest : Text}
    (ahead : reading.cursor.after = c :: rest) :
    (many1 accepts).ends reading =
      if accepts c then (many accepts).ends ⟨reading.cursor.pass c rest, reading.groups⟩
      else [] := by
  cases accepted : accepts c <;> simp [many1, ends, ahead, accepted]

/-- A run of at least one character settles, if its class has a carriage return whenever it has a
newline. -/
theorem settles_many1 {accepts : Char → Bool} (both : accepts '\n' = true → accepts '\r' = true) :
    (many1 accepts).Settles := by
  intro reading
  cases ahead : reading.cursor.after with
  | nil => simp [many1, ends, ahead]
  | cons c rest =>
    have further := settles_run true both ⟨reading.cursor.pass c rest, reading.groups⟩
    change ((many accepts).ends _).filter _ = ((many accepts).ends _).map _ at further
    by_cases newline : c = '\n'
    · subst newline
      have ahead' : reading.crlf.cursor.after = '\r' :: '\n' :: Text.crlf rest := by
        simp [ahead]
      rw [Reading.crlf, Cursor.crlf_pass_newline ahead, Cursor.closed_of_newline ahead]
        at further
      -- Behind the carriage return the run may stop, or take the newline along.
      have between : ((many1 accepts).ends reading.crlf).filter
            (fun next => !next.cursor.atNewline) =
          if accepts '\r' then
            ((many1 accepts).ends ⟨reading.cursor.crlf.pass '\r' ('\n' :: Text.crlf rest),
              reading.crlf.groups⟩).filter fun next => !next.cursor.atNewline
          else [] := by
        rw [ends_many1 ahead']
        cases accepts '\r' with
        | false => rfl
        | true =>
          rw [if_pos rfl, if_pos rfl, ends_many_cons rfl, List.filter_append]
          simp
      rw [between, ends_many1 rfl, ends_many1 ahead]
      cases accepted : accepts '\n' with
      | true => rw [both accepted, if_pos rfl, if_pos rfl, if_pos rfl]; exact further
      | false => simp
    · have ahead' : reading.crlf.cursor.after = c :: Text.crlf rest := by
        simp [ahead, Text.crlf_cons newline]
      rw [ends_many1 ahead, ends_many1 ahead']
      rw [Reading.crlf, reading.cursor.crlf_pass newline] at further
      cases accepts c with
      | true => exact further
      | false => rfl

/-- A gap within a line commutes with carriage returns. -/
theorem commutes_gap : gap.Commutes := commutes_run true (by decide) (by decide)

/-- A gap within a line keeps a steady rest steady. -/
theorem Steady.behind_gap (steady : (sequence rest).Steady) : (sequence (gap :: rest)).Steady :=
  steady.behind_run true (by decide) (by decide)

/-- Any number of blanks settles. -/
theorem settles_blanks : blanks.Settles := settles_run true (by decide)

/-- At least one blank settles, as any number does. -/
theorem settles_someBlanks : someBlanks.Settles := settles_many1 (by decide)

/-- A gap of at least one space or tab is steady. -/
theorem steady_gap1 : (many1 (among " \t")).Steady :=
  (steady_char (by decide) (by decide)).seq (commutes_run true (by decide) (by decide))

/-- A name is steady. -/
theorem steady_name : name.Steady :=
  (steady_char (by decide) (by decide)).seq (commutes_run true (by decide) (by decide))

/-- The words that declare a name are steady. -/
theorem steady_declarator : declarator.Steady := steady_litOf (by decide)

/-- The signs that count a variable up or down are steady. -/
theorem steady_update : update.Steady := steady_litOf (by decide)

/-- The signs in front of the equals sign of a compound assignment are steady. -/
theorem steady_compound : compound.Steady := by
  refine steady_choice fun pattern listed => ?_
  simp only [List.mem_cons, List.not_mem_nil, or_false] at listed
  rcases listed with rfl | rfl | rfl | rfl | rfl | rfl | rfl
  · exact steady_char (by decide) (by decide)
  · exact steady_lit (by decide)
  · exact steady_lit (by decide)
  · exact (steady_lit (by decide)).seq
      (commutes_either (steady_lit (by decide)).commutes commutes_empty)
  · exact steady_lit (by decide)
  · exact steady_lit (by decide)
  · exact steady_lit (by decide)

/-- The sign of an assignment is steady. -/
theorem steady_assignment : assignment.Steady :=
  (steady_lit (by decide)).alone.behind_optional (settles_of_commutes steady_compound.commutes)
    steady_compound.shuns

end Pattern

open Pattern Phrase

/-! ### Patterns within a line -/

/-- A list of misspelt words between edges is steady. -/
theorem Spelling.steady_misspelling {wrong : List String} (inLine : wrong.all isInLine = true) :
    (sequence [edge, litOf wrong, edge]).Steady :=
  .behind_edge ((steady_litOf inLine).cons commutes_edge)

/-- The declaration of a constant is steady. -/
theorem Reassignment.steady_declaration : declaration.Steady := by
  have sign : (sequence [gap, lit "="]).Steady := .behind_gap (steady_lit (by decide))
  have named := (steady_name.group 1).cons sign.commutes
  exact .behind_edge ((steady_lit (by decide)).cons (steady_gap1.cons named.commutes).commutes)

/-- A call is steady. -/
theorem Call.steady_call : call.Steady :=
  .behind_edge ((steady_name.group 1).cons (steady_lit (by decide)).commutes)

/-- The head of a function is steady. -/
theorem Return.steady_functionHead : functionHead.Steady := by
  have star : (lit "*").Steady := steady_lit (by decide)
  have closer : (sequence [lit ")", gap, lit "\x7b"]).Steady :=
    (steady_lit (by decide)).cons (steady_lit (by decide)).alone.behind_gap.commutes
  have parameters : (sequence [lit "(", many (notAmong "()"), lit ")", gap, lit "\x7b"]).Steady :=
    (steady_lit (by decide)).cons (closer.behind (settles_run true (by decide)))
  have named := parameters.behind_gap.behind_optional
    (settles_of_commutes (steady_name.group 1).commutes) (steady_name.group 1).shuns
  have starred := named.behind_gap.behind_optional (settles_of_commutes star.commutes) star.shuns
  exact .behind_edge ((steady_lit (by decide)).cons starred.behind_gap.behind_edge.commutes)

/-- A list of parameters is steady up to the arrow or brace. -/
theorem Call.steady_parameterList : parameterList.Steady := by
  have arrow : (sequence [either (lit "=>") (lit "\x7b")]).Steady :=
    (steady_lit (by decide)).either (steady_lit (by decide))
  have closer : (sequence [lit ")", blanks, either (lit "=>") (lit "\x7b")]).Steady :=
    (steady_lit (by decide)).cons (arrow.behind settles_blanks)
  exact (steady_lit (by decide)).cons
    (closer.behind (settles_group 1 (settles_run true (by decide))))

/-! ### Assignments -/

namespace Reassignment

/-- An assignment to a name, without what stands in front of the name. -/
def assigning (target : Text) : Pattern :=
  group 1 <| either
    (sequence [update, gap, word target, edge])
    (seq (word target) (either
      (seq gap update)
      (sequence [gap, assignment, either (char (notAmong "=>")) (anchor .textEnd)])))

variable {target : Text}

/-- A sign that counts up or down never stops behind a newline. -/
theorem endsInLine_update : update.EndsInLine :=
  endsInLine_either (endsInLine_lit (by decide)) (endsInLine_lit (by decide))

/-- An assignment relates the two texts. Of the characters behind the equals sign one is taken,
which may be a line end. -/
theorem relates_assigning (present : target ≠ []) (inLine : ∀ c ∈ target, c ≠ '\r' ∧ c ≠ '\n') :
    (assigning target).Relates Reading.Meets := by
  have named : (word target).Commutes := commutes_word inLine
  have updated : (sequence [update, gap, word target, edge]).Relates Reading.Meets := by
    refine relates_of_endsInLine (commutes_sequence_cons steady_update.commutes
      (commutes_sequence_cons commutes_gap (commutes_sequence_cons named commutes_edge))) ?_
    exact endsInLine_seq _ (endsInLine_seq _ (endsInLine_seq_anchor _
      (endsInLine_word present fun c listed => (inLine c listed).2)))
  have updated' : (seq gap update).Relates Reading.Meets :=
    relates_of_endsInLine (commutes_seq commutes_gap steady_update.commutes)
      (endsInLine_seq _ endsInLine_update)
  -- Behind the equals sign the text ends, or one more character is taken.
  have shown (reading : Reading) (inLine : reading.cursor.before.head? ≠ some '\n') :
      List.Forall₂ Reading.Meets
        ((either (char (notAmong "=>")) (anchor .textEnd)).ends reading)
        ((either (char (notAmong "=>")) (anchor .textEnd)).ends reading.crlf) := by
    refine List.rel_append (relates_char (by decide) reading) ?_
    rw [commutes_textEnd reading, List.forall₂_map_right_iff, List.forall₂_same]
    intro next reached
    obtain ⟨-, rfl⟩ : _ ∧ next = reading := by simpa [ends] using reached
    exact Reading.meets_crlf inLine
  have assigned : (sequence [assignment, either (char (notAmong "=>")) (anchor .textEnd)]).Relates
      Reading.Meets :=
    relates_seq steady_assignment.commutes fun reading next listed =>
      shown next (endsInLine_seq _ (endsInLine_lit (by decide)) reading next listed)
  exact relates_group 1 (relates_either updated (relates_seq named fun _ next _ =>
    relates_either updated' (relates_seq commutes_gap fun _ next _ => assigned next) next))

/-- An assignment does not start in front of a newline. -/
theorem shuns_assigning (present : target ≠ []) (inLine : ∀ c ∈ target, c ≠ '\r' ∧ c ≠ '\n') :
    (assigning target).Shuns := by
  have named := shuns_word present fun c listed => (inLine c listed).2
  refine shuns_group 1 (shuns_either (shuns_sequence steady_update.shuns _) ?_)
  exact shuns_sequence named [_]

end Reassignment

/-! ### Patterns that run to the end of a line -/

namespace Block

/-- The blank end of a line closes. -/
theorem closes_lineEnding (number : Nat) : (sequence [lineEnding number]).Closes number :=
  closes_group_lineEnd (by decide) (by decide) number

/-- At the end of a line its blank end may be empty. -/
theorem isSome_lineEnding (number : Nat) (reading : Reading)
    (ended : ∀ c ∈ reading.cursor.after.head?, c = '\n') :
    ((sequence [lineEnding number]).ends reading).head?.isSome := by
  have blank : ((sequence [lineEnding number]).ends reading).head? = _ :=
    head?_group_lineEnd number (among " \t\r") reading
  rw [blank, ends_many_lineEnd_of_ended (by decide) ended]
  rfl

/-- A condition in parentheses settles. -/
theorem settles_condition : condition.Settles := by
  have nested : (sequence [lit "(", many (notAmong "()\n"), lit ")"]).Steady :=
    (steady_lit (by decide)).cons
      ((steady_lit (by decide)).alone.behind (settles_run true (by decide)))
  exact settles_manyRounds
    (settles_either (settles_char (by decide)) (settles_of_commutes nested.commutes))
    (shuns_either (shuns_char (by decide)) nested.shuns)

/-- A body and the blank end of its line. -/
theorem closes_body (key number : Nat) {starts : Char → Bool} (cr : starts '\r' = false)
    (newline : starts '\n' = false) :
    (sequence [lineBody key starts, lineEnding number]).Closes number :=
  closes_lineBody key cr newline (closes_lineEnding number) (isSome_lineEnding number)

/-- The pattern of bare conditions prefers the end of the line. -/
theorem closes_ifPattern : ifPattern.Closes 3 := by
  have body := @closes_body 2 3 (fun c => !isBlank c && notAmong "\x7b;/" c) (by decide) (by decide)
  have closer : (lit ")").Steady := steady_lit (by decide)
  have condition := closes_sequence_of_settles (settles_group 1 settles_condition)
    (shuns_sequence closer.shuns _)
    (closes_sequence closer.commutes (closes_sequence commutes_gap body))
  exact closes_sequence commutes_edge (closes_sequence (steady_lit (by decide)).commutes
    (closes_sequence commutes_gap (closes_sequence (steady_lit (by decide)).commutes condition)))

/-- The pattern of bare conditions shuns newlines. -/
theorem shuns_ifPattern : ifPattern.Shuns :=
  shuns_sequence_anchor _ (shuns_sequence (steady_lit (by decide)).shuns _)

/-- The pattern of bare alternatives prefers the end of the line. -/
theorem closes_elsePattern : elsePattern.Closes 2 := by
  have body := @closes_body 1 2 (fun c => !isBlank c && notAmong "\x7b;" c) (by decide) (by decide)
  exact closes_sequence commutes_edge (closes_sequence (steady_lit (by decide)).commutes
    (closes_sequence steady_gap1.commutes body))

/-- The pattern of bare alternatives shuns newlines. -/
theorem shuns_elsePattern : elsePattern.Shuns :=
  shuns_sequence_anchor _ (shuns_sequence (steady_lit (by decide)).shuns _)

end Block

namespace Delimiter

/-- The pattern of open calls closes, for any group as it has none. -/
theorem closes_consoleCall : consoleCall.Closes 0 := by
  have rest : (sequence [lit "(", many (· != '\n'), anchor .lineEnd]).Closes 0 :=
    closes_sequence (steady_lit (by decide)).commutes
      (closes_many_lineEnd (by decide) (by decide) 0)
  exact closes_sequence commutes_edge (closes_sequence (steady_lit (by decide)).commutes
    (closes_sequence (steady_litOf (by decide)).commutes (closes_sequence commutes_gap rest)))

/-- The pattern of open calls shuns newlines. -/
theorem shuns_consoleCall : consoleCall.Shuns :=
  shuns_sequence_anchor _ (shuns_sequence (steady_lit (by decide)).shuns _)

end Delimiter

namespace Semicolon

/-- The pattern of missing semicolons closes. -/
theorem closes_missing : missing.pattern.Closes 0 := closes_many_lineEnd (by decide) (by decide) 0

/-- In front of a newline the blank end is empty. -/
theorem pauses_missing : missing.pattern.Pauses := by
  refine .inr fun cursor newline => ?_
  obtain ⟨rest, ahead⟩ := Cursor.atNewline_iff.mp newline
  have only : missing.pattern.ends ⟨cursor, []⟩ = [⟨cursor, []⟩] :=
    ends_many_lineEnd_of_ended (by decide) (by simp [ahead])
  exact ⟨_, by rw [matchAt?, only]; rfl, rfl⟩

end Semicolon

end ScriptCheck
