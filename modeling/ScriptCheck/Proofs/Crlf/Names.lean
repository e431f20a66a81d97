import ScriptCheck.Proofs.Occurrence
import ScriptCheck.Proofs.Crlf.Phrases

/-!
# Declared names and carriage returns

A call is not reported if the text declares its name, in one of seven forms or as a
parameter. Whether it does is the same in both forms of a text, for every name on one line.

Six of the forms are steady or start a name afresh. In the head of a function the blanks
on the two sides of an optional star meet if there is none; together they are blanks once,
so that the head is searched like the two heads with and without the star. In an import
the character in front of the name may be a newline, which the run before it does not take.
-/

namespace ScriptCheck

namespace Pattern

variable {first second : Pattern} {rest rest' : List Pattern}

/-- The patterns have the same ends, in whatever order. -/
def Alike (first second : Pattern) : Prop :=
  ∀ reading next, next ∈ first.ends reading ↔ next ∈ second.ends reading

/-- Sequences with the same first pattern are alike if the rests are. -/
theorem Alike.cons (alike : (sequence rest).Alike (sequence rest')) :
    (sequence (first :: rest)).Alike (sequence (first :: rest')) := by
  intro reading next
  simp only [ends_sequence_cons, List.mem_flatMap, alike _ next]

/-- Patterns with the same ends occur in the same texts. -/
theorem Alike.occursIn (alike : first.Alike second) (text : Text) :
    first.occursIn text = second.occursIn text := by
  have same (reading : Reading) : first.ends reading = [] ↔ second.ends reading = [] := by
    simp only [List.eq_nil_iff_forall_not_mem, alike reading]
  rw [← Bool.not_inj_iff, Bool.eq_iff_iff, Bool.not_eq_true', Bool.not_eq_true',
    occursIn_eq_false_iff, occursIn_eq_false_iff]
  simp only [same]

/-! ### Runs that meet -/

/-- A run over characters of a class may stop behind any stretch of them. -/
theorem mem_stops_of_spans {accepts : Char → Bool} {cursor stop : Cursor} {body ahead : Text}
    (sees : cursor.after = ahead) (spans : cursor.Spans stop body)
    (all : ∀ c ∈ body, accepts c = true) : stop ∈ stops accepts cursor ahead := by
  induction body generalizing cursor ahead with
  | nil =>
    obtain rfl : stop = cursor := Cursor.eq_of_sides spans.behind spans.ahead.symm
    cases ahead <;> simp [stops]
  | cons c body ih =>
    have whole : ahead = c :: (body ++ stop.after) := by rw [← sees, spans.ahead]; rfl
    have further : (cursor.pass c (body ++ stop.after)).Spans stop body :=
      ⟨rfl, by rw [spans.behind]; simp [Cursor.pass]⟩
    have later := ih rfl further fun d listed => all d (by simp [listed])
    rw [whole, stops, all c (by simp), if_pos rfl]
    exact .tail _ later

/-- A run ends behind each stretch of its class, with no group set. -/
theorem mem_ends_many {accepts : Char → Bool} {reading next : Reading} :
    next ∈ (many accepts).ends reading ↔
      ∃ body, reading.cursor.Spans next.cursor body ∧ (∀ c ∈ body, accepts c = true) ∧
        next.groups = reading.groups := by
  simp only [many, ends, ↓reduceIte, List.mem_map, List.mem_reverse]
  constructor
  · rintro ⟨place, listed, rfl⟩
    obtain ⟨body, spans, all⟩ := spans_of_mem_stops _ rfl listed
    exact ⟨body, spans, all, rfl⟩
  · rintro ⟨body, spans, all, groups⟩
    exact ⟨next.cursor, mem_stops_of_spans rfl spans all, by rw [← groups]⟩

/-- Two runs of one class, one behind the other, have the ends of one: two stretches in a row are a
stretch. -/
theorem mem_ends_many_many {accepts : Char → Bool} {reading next : Reading} :
    next ∈ ((many accepts).ends reading).flatMap (many accepts).ends ↔
      next ∈ (many accepts).ends reading := by
  rw [List.mem_flatMap]
  constructor
  · rintro ⟨middle, front, back⟩
    obtain ⟨body, spans, all, groups⟩ := mem_ends_many.mp front
    obtain ⟨body', spans', all', groups'⟩ := mem_ends_many.mp back
    refine mem_ends_many.mpr ⟨body ++ body', spans.trans spans', ?_, groups'.trans groups⟩
    intro c listed
    rcases List.mem_append.mp listed with listed | listed
    · exact all c listed
    · exact all' c listed
  · intro listed
    exact ⟨reading, mem_ends_many.mpr ⟨[], .refl _, by simp, rfl⟩, listed⟩

/-- Runs on the two sides of a mark that may be left out. Without the mark the two runs are one,
which is simpler to follow in both texts. -/
theorem alike_many_optional (accepts : Char → Bool) (mark : Pattern) (rest : List Pattern) :
    (sequence (many accepts :: optional mark :: many accepts :: rest)).Alike
      (sequence [either (sequence (many accepts :: mark :: many accepts :: rest))
        (sequence (many accepts :: rest))]) := by
  intro reading next
  have only (pattern : Pattern) : (sequence [pattern]).ends reading = pattern.ends reading := rfl
  have apart : (sequence (many accepts :: optional mark :: many accepts :: rest)).ends reading =
      ((many accepts).ends reading).flatMap fun middle =>
        (sequence (mark :: many accepts :: rest)).ends middle ++
          (sequence (many accepts :: rest)).ends middle := by
    rw [ends_sequence_cons]
    congr 1
    funext middle
    rw [ends_sequence_cons, ends_sequence_cons, optional, ends, List.flatMap_append, ends,
      List.flatMap_singleton]
  have joined : next ∈ ((many accepts).ends reading).flatMap
        (sequence (many accepts :: rest)).ends ↔
      next ∈ (sequence (many accepts :: rest)).ends reading := by
    simp only [ends_sequence_cons, List.mem_flatMap]
    constructor
    · rintro ⟨middle, front, further, back, last⟩
      exact ⟨further, mem_ends_many_many.mp (List.mem_flatMap.mpr ⟨middle, front, back⟩), last⟩
    · rintro ⟨further, front, last⟩
      obtain ⟨middle, front, back⟩ := List.mem_flatMap.mp (mem_ends_many_many.mpr front)
      exact ⟨middle, front, further, back, last⟩
  rw [apart, only, ends, List.mem_append, ← joined]
  simp only [ends_sequence_cons, List.mem_flatMap, List.mem_append, and_or_left, exists_or]

/-- A sequence settles if its first commutes and its second settles. -/
theorem settles_seq (commutes : first.Commutes) (settles : second.Settles) :
    (seq first second).Settles := by
  intro reading
  simp only [ends, commutes reading, List.flatMap_map, List.filter_flatMap, List.map_flatMap,
    settles _]

/-! ### A newline in front of a name -/

/-- A run followed by a character, by the next character. -/
theorem ends_many_char {accepts other : Char → Bool} {reading : Reading} {c : Char} {rest : Text}
    (ahead : reading.cursor.after = c :: rest) :
    (seq (many accepts) (char other)).ends reading =
      (if accepts c then
        (seq (many accepts) (char other)).ends ⟨reading.cursor.pass c rest, reading.groups⟩
      else []) ++ (char other).ends reading := by
  have parts : (seq (many accepts) (char other)).ends reading =
      ((many accepts).ends reading).flatMap (char other).ends := rfl
  rw [parts, ends_many_cons ahead, List.flatMap_append, List.flatMap_singleton, ends_many1 ahead]
  cases accepts c <;> rfl

/-- A run that stops at a newline, and a character that may be one. In the CRLF text the run takes
the carriage return, and the same newline ends it. -/
theorem settles_many_char {accepts other : Char → Bool} (cr : accepts '\r' = true)
    (newline : accepts '\n' = false) (newline' : other '\n' = true) :
    (seq (many accepts) (char other)).Settles := by
  intro reading
  generalize sees : reading.cursor.after = ahead
  induction ahead generalizing reading with
  | nil => simp [many, ends, stops, sees]
  | cons c rest ih =>
    by_cases here : c = '\n'
    · subst here
      have sees' : reading.crlf.cursor.after = '\r' :: '\n' :: Text.crlf rest := by
        simp [sees]
      have passed := Cursor.crlf_pass_newline sees
      rw [Cursor.closed_of_newline sees] at passed
      -- The character is the newline; behind a carriage return alone nothing is kept.
      have between : ((char other).ends reading.crlf).filter
          (fun next => !next.cursor.atNewline) = [] := by
        cases accepted : other '\r' <;> simp [ends, sees, accepted]
      rw [ends_many_char sees, ends_many_char sees', cr, newline, if_pos rfl,
        if_neg Bool.false_ne_true, ends_many_char rfl, newline, if_neg Bool.false_ne_true,
        List.filter_append, between, List.append_nil, List.nil_append, List.nil_append]
      have taken : (char other).ends reading =
          [⟨reading.cursor.pass '\n' rest, reading.groups⟩] := by
        simp [ends, sees, newline']
      rw [taken, ← filter_map_crlf, List.map_singleton]
      simp only [Reading.crlf, passed]
      congr 1
      simp [ends, Cursor.pass, newline']
    · have sees' : reading.crlf.cursor.after = c :: Text.crlf rest := by
        simp [sees, Text.crlf_cons here]
      have further := ih ⟨reading.cursor.pass c rest, reading.groups⟩ rfl
      rw [Reading.crlf, reading.cursor.crlf_pass here] at further
      rw [ends_many_char sees, ends_many_char sees', List.filter_append, List.map_append,
        ends_char_crlf sees here, filter_map_crlf]
      congr 1
      cases accepts c with
      | true => exact further
      | false => rfl

/-- A steady sequence behind two that settle together commutes. -/
theorem Steady.behind_both (steady : (sequence rest).Steady)
    (settles : (first.seq second).Settles) : (sequence (first :: second :: rest)).Commutes := by
  have joined (reading : Reading) : (sequence (first :: second :: rest)).ends reading =
      (sequence (first.seq second :: rest)).ends reading := by
    rw [ends_sequence_cons, ends_sequence_cons, ends, List.flatMap_assoc]
    exact List.flatMap_congr fun next _ => ends_sequence_cons second rest next
  intro reading
  rw [joined, joined]
  exact steady.behind settles reading

end Pattern

namespace Call

open Pattern Phrase

/-! ### The forms of a declaration -/

variable {name : Text}

/-- The head of a function, the one with a star apart from the one without. -/
def functionHeads (name : Text) : Pattern :=
  sequence [edge, lit "function",
    either (sequence [blanks, lit "*", blanks, word name, blanks, lit "("])
      (sequence [blanks, word name, blanks, lit "("])]

/-- A function head is one with a star or one without. -/
theorem alike_functionHeads (name : Text) :
    (functionHead name).Alike (functionHeads name) :=
  .cons (.cons (alike_many_optional isBlank (lit "*") [word name, blanks, lit "("]))

/-- Both heads of a function are steady if the name is. -/
theorem steady_functionHeads (named : (word name).Steady) : (functionHeads name).Steady := by
  have head : (sequence [word name, blanks, lit "("]).Steady :=
    named.cons ((steady_lit (by decide)).alone.behind settles_blanks)
  have starred : (sequence [lit "*", blanks, word name, blanks, lit "("]).Steady :=
    (steady_lit (by decide)).cons (head.behind settles_blanks)
  exact .behind_edge ((steady_lit (by decide)).cons
    (commutes_either (starred.behind settles_blanks) (head.behind settles_blanks)))

/-- A mark of asynchronous functions. -/
theorem steady_asynchronous {rest : List Pattern} (steady : (sequence rest).Steady) :
    (sequence (asynchronous :: rest)).Steady := by
  have keyword : (lit "async").Steady := steady_lit (by decide)
  exact steady.behind_optional (settles_seq keyword.commutes settles_someBlanks)
    (shuns_sequence keyword.shuns [someBlanks])

/-- A name that a function is assigned to. -/
theorem steady_assigned {rest : List Pattern} (named : (word name).Steady)
    (steady : (sequence rest).Steady) :
    (sequence (word name :: blanks :: lit "=" :: blanks :: asynchronous :: rest)).Steady := by
  have sign : (sequence (lit "=" :: blanks :: asynchronous :: rest)).Steady :=
    (steady_lit (by decide)).cons ((steady_asynchronous steady).behind settles_blanks)
  exact named.cons (sign.behind settles_blanks)

/-- The word that declares a function is steady. -/
theorem steady_functionWord : functionWord.Steady := (steady_lit (by decide)).seq commutes_edge

/-- What declares a name on one line occurs in both forms of a text or in none. -/
theorem occursIn_declaration_crlf (present : name ≠ [])
    (inLine : ∀ c ∈ name, c ≠ '\r' ∧ c ≠ '\n') {declaration : Pattern}
    (listed : declaration ∈ declarations name) (text : Text) :
    declaration.occursIn text.crlf = declaration.occursIn text := by
  have named : (word name).Steady := steady_word present inLine
  have arrow : (sequence [blanks, lit "=>"]).Commutes :=
    (steady_lit (by decide)).alone.behind settles_blanks
  have whole {pattern : Pattern} (steady : pattern.Steady) :
      pattern.occursIn text.crlf = pattern.occursIn text :=
    occursIn_crlf steady.commutes steady.shuns text
  have afresh {pattern : Pattern} (steady : pattern.Steady) :
      (seq freshName pattern).occursIn text.crlf = (seq freshName pattern).occursIn text := by
    have relates : pattern.Relates fun _ _ => True :=
      relates_of_commutes steady.commutes fun _ _ _ => trivial
    exact occursIn_fresh_crlf relates steady.shuns text
  simp only [declarations, List.mem_cons, List.not_mem_nil, or_false] at listed
  rcases listed with rfl | rfl | rfl | rfl | rfl | rfl | rfl
  · -- A function.
    rw [(alike_functionHeads name).occursIn, (alike_functionHeads name).occursIn]
    exact whole (steady_functionHeads named)
  · -- A variable that holds a function.
    have value : (sequence [choice [functionWord, lit "(",
        sequence [Phrase.name, blanks, lit "=>"]]]).Steady := by
      refine steady_choice fun pattern listed => ?_
      simp only [List.mem_cons, List.not_mem_nil, or_false] at listed
      rcases listed with rfl | rfl | rfl
      · exact steady_functionWord
      · exact steady_lit (by decide)
      · exact steady_name.cons arrow
    exact whole (.behind_edge (steady_declarator.cons
      ((steady_assigned named value).behind settles_someBlanks)))
  · -- A name or a member that a function is assigned to.
    have closer : (sequence [lit ")", blanks, lit "=>"]).Steady :=
      (steady_lit (by decide)).cons arrow
    have value : (sequence [either functionWord
        (sequence [lit "(", many (notAmong "()"), lit ")", blanks, lit "=>"])]).Steady :=
      steady_functionWord.either
        ((steady_lit (by decide)).cons (closer.behind (settles_run true (by decide))))
    exact afresh (steady_assigned named value)
  · -- A class.
    have bound : (sequence [word name, edge]).Steady := named.cons commutes_edge
    exact whole (.behind_edge ((steady_lit (by decide)).cons (bound.behind settles_someBlanks)))
  · -- An import.
    have source : (sequence [edge, lit "from", edge]).Steady :=
      .behind_edge ((steady_lit (by decide)).cons commutes_edge)
    have imported : (sequence [word name, edge, many (notAmong ";\n"), edge, lit "from",
        edge]).Steady :=
      named.cons (commutes_sequence_cons commutes_edge
        (source.behind (settles_run true (by decide))))
    exact whole (.behind_edge ((steady_lit (by decide)).cons (commutes_sequence_cons commutes_edge
      (imported.behind_both (settles_many_char (by decide) (by decide) (by decide))))))
  · -- A variable taken out of an object.
    have sign : (sequence [lit "\x7d", blanks, lit "="]).Steady :=
      (steady_lit (by decide)).cons ((steady_lit (by decide)).alone.behind settles_blanks)
    have taken : (sequence [edge, word name, edge, many (notAmong "\x7d"), lit "\x7d", blanks,
        lit "="]).Steady :=
      .behind_edge (named.cons (commutes_sequence_cons commutes_edge
        (sign.behind (settles_run true (by decide)))))
    have braces : (sequence [lit "\x7b", many (notAmong "\x7d"), edge, word name, edge,
        many (notAmong "\x7d"), lit "\x7d", blanks, lit "="]).Steady :=
      (steady_lit (by decide)).cons (taken.behind (settles_run true (by decide)))
    exact whole (.behind_edge (steady_declarator.cons (braces.behind settles_blanks)))
  · -- The only parameter of an arrow.
    exact afresh (named.cons arrow)

/-! ### Parameters -/

/-- The parts of the CRLF text between separators are the CRLF forms of the parts, since no line end
separates. -/
theorem splitOn_crlf {separator : Char} (notCr : '\r' ≠ separator)
    (notNewline : '\n' ≠ separator) (text : Text) :
    text.crlf.splitOn separator = (text.splitOn separator).map Text.crlf := by
  induction text with
  | nil => rfl
  | cons c rest ih =>
    have others := List.splitOn_ne_nil separator rest
    by_cases newline : c = '\n'
    · subst newline
      simp only [Text.crlf_newline, List.splitOn_cons_eq_if_modifyHead, beq_iff_eq, notCr,
        notNewline, if_false, ih]
      cases split : rest.splitOn separator with
      | nil => exact absurd split others
      | cons first further => simp
    · rw [Text.crlf_cons newline, List.splitOn_cons_eq_if_modifyHead,
        List.splitOn_cons_eq_if_modifyHead, ih]
      by_cases here : c = separator
      · simp [here]
      · simp only [beq_iff_eq, here, if_false]
        cases split : rest.splitOn separator with
        | nil => exact absurd split others
        | cons first further => simp [Text.crlf_cons newline]

/-- The name of a parameter in the CRLF text is the CRLF form of the name: cutting a default and
trimming blanks respect line ends. -/
theorem parameterName_crlf (parameter : Text) :
    parameterName parameter.crlf = (parameterName parameter).crlf := by
  have front : parameter.crlf.takeWhile (· ≠ '=') =
      Text.crlf (parameter.takeWhile (· ≠ '=')) := by
    induction parameter with
    | nil => rfl
    | cons c rest ih =>
      simp only [ne_eq, decide_not] at ih
      by_cases newline : c = '\n'
      · subst newline
        simp [ih]
      · rw [Text.crlf_cons newline]
        by_cases here : c = '='
        · simp [here]
        · simp [here, ih, Text.crlf_cons newline]
  rw [parameterName, front, Text.trim_crlf, parameterName]

/-- A name on one line is a parameter in both forms of a text or in none. -/
theorem isParameter_crlf [Engine] (inLine : ∀ c ∈ name, c ≠ '\r' ∧ c ≠ '\n') (text : Text) :
    isParameter text.crlf name = isParameter text name := by
  have same (parameter : Text) : (parameterNamed name).occursIn (parameterName parameter.crlf) =
      (parameterNamed name).occursIn (parameterName parameter) := by
    have oneLine : ∀ c ∈ name, c ≠ '\n' := fun c listed => (inLine c listed).2
    have spread : ∀ c ∈ "...".toList ++ name, c ≠ '\n' := by
      intro c listed
      rcases List.mem_append.mp listed with listed | listed
      · rintro rfl
        simp at listed
      · exact oneLine c listed
    rw [Bool.eq_iff_iff, occursIn_parameterNamed, occursIn_parameterNamed, parameterName_crlf,
      Text.crlf_eq_iff oneLine, Text.crlf_eq_iff spread]
  rw [isParameter, isParameter, allMatches_crlf steady_parameterList.commutes
    steady_parameterList.shuns, List.any_map]
  congr 1
  rw [Bool.eq_iff_iff, List.any_eq_true, List.any_eq_true]
  refine exists_congr fun found => and_congr_right fun listed => ?_
  rw [Function.comp_apply, Match.group?_crlf]
  cases group : found.group? 1 with
  | none => rfl
  | some list =>
    have within := within_of_mem_allMatches listed group
    simp only [Option.map_some, Option.any_some, within.body_crlf,
      splitOn_crlf (show '\r' ≠ ',' by decide) (show '\n' ≠ ',' by decide), List.any_map,
      Function.comp_def, same]

/-- A name is declared in both forms of a text or in none. -/
theorem isDeclared_crlf [Engine] (present : name ≠ [])
    (inLine : ∀ c ∈ name, c ≠ '\r' ∧ c ≠ '\n') (text : Text) :
    isDeclared text.crlf name = isDeclared text name := by
  rw [isDeclared, isDeclared, isParameter_crlf inLine]
  congr 1
  rw [Bool.eq_iff_iff, List.any_eq_true, List.any_eq_true]
  refine exists_congr fun declaration => and_congr_right fun taken => ?_
  rw [occursIn_declaration_crlf present inLine (List.mem_of_mem_filter taken)]

end Call

end ScriptCheck
