import ScriptCheck.Proofs.Mending
import ScriptCheck.Proofs.Crlf.Functions

/-!
# Findings and carriage returns

Ending the lines of a text by a carriage return and a newline leaves the findings of the
built-in rules at their lines and columns, with two exceptions. A backslash at the end of a
line goes on with a literal, but in front of a carriage return it does not. And an
assignment takes the character behind its equals sign along. Where that is a newline, the
carriage return in its place may not be code, and the newline, which is left over, may let
another assignment start.
-/

namespace ScriptCheck

open Pattern Check

variable {text : Text} {known : Text → Bool}

/-! ### Constants that are assigned again -/

namespace Reassignment

/-- Whether an assignment that takes a newline along, in the text behind a declaration, is
the same assignment if it takes a carriage return: it counts only with its equals sign in
code, and if it does not count, no other assignment starts with the newline. -/
def agreesAtBreak (text target : Text) (behind : Cursor) (assigned : Match) : Bool :=
  if assigns text behind.before.reverse assigned then
    text.layout.inCode (behind.offset + assigned.stop - 2)
  else
    (Cursor.all behind.after).all fun place =>
      place.offset + 1 != assigned.stop || ((assignmentTo target).matchAt? place).isNone

/-- Every assignment behind the declaration of a constant that takes a newline along is the
same assignment with a carriage return. -/
def BreaksAlike (text : Text) : Prop :=
  ∀ found ∈ declaration.allMatches text, ∀ declared ∈ found.group? 1,
    ∀ assigned ∈ (assignmentTo declared.body).allMatches found.whole.stop.after,
      assigned.body.getLast? = some '\n' →
        agreesAtBreak text declared.body found.whole.stop assigned = true

instance (text : Text) : Decidable (BreaksAlike text) :=
  inferInstanceAs (Decidable (∀ found ∈ declaration.allMatches text, ∀ declared ∈ found.group? 1,
    ∀ assigned ∈ (assignmentTo declared.body).allMatches found.whole.stop.after,
      assigned.body.getLast? = some '\n' →
        agreesAtBreak text declared.body found.whole.stop assigned = true))

/-- A text ends in a keyword of a declaration in both forms or in none, since the end is trimmed of
blanks before. -/
theorem declares_crlf (before : Text) : declares before.crlf = declares before := by
  have same (keyword : String) (inLine : isInLine keyword = true) :
      (before.crlf.trimEnd.endsWith keyword.toList &&
        Text.delimits (before.crlf.trimEnd.take
          (before.crlf.trimEnd.length - keyword.toList.length)).getLast?) =
      (before.trimEnd.endsWith keyword.toList &&
        Text.delimits (before.trimEnd.take
          (before.trimEnd.length - keyword.toList.length)).getLast?) := by
    obtain ⟨-, parts⟩ := of_isInLine inLine
    rw [Text.trimEnd_crlf, Text.endsWith_crlf _ parts]
    cases ends : before.trimEnd.endsWith keyword.toList with
    | false => rfl
    | true =>
      obtain ⟨front, whole⟩ := List.isSuffixOf_iff_suffix.mp ends
      have whole' : Text.crlf before.trimEnd = Text.crlf front ++ keyword.toList := by
        rw [← whole, Text.crlf_append,
          Text.crlf_of_oneLine fun c listed => (parts c listed).2]
      rw [whole', ← whole]
      simp [Text.getLast?_crlf]
  simp only [declares, List.any_cons, List.any_nil, same "let" (by decide), same "var" (by decide),
    same "const" (by decide)]

variable {target front rest : Text} {place : Cursor} {assigned assigned' : Match}

/-- The group of an assignment goes to its end. -/
theorem stop_of_group? {piece : Piece}
    (matched : (assignmentTo target).matchAt? place = some assigned)
    (group : assigned.group? 1 = some piece) : piece.stop = assigned.whole.stop := by
  obtain ⟨reading, first, rfl⟩ := Option.map_eq_some_iff.mp matched
  have counted : 0 < (assignmentTo target).groupCount :=
    Nat.lt_of_lt_of_le Nat.one_pos (Nat.le_trans (Nat.le_max_left 1 _) (Nat.le_max_right _ _))
  obtain ⟨middle, -, reached⟩ := List.mem_flatMap.mp (List.mem_of_mem_head? first)
  obtain ⟨last, -, rfl⟩ := List.mem_map.mp reached
  have kept : some (Piece.mk middle.cursor last.cursor) = some piece := by
    simpa [Match.group?, counted] using group
  obtain rfl := Option.some.inj kept
  rfl

/-- An assignment ends in a character of its line, or in the newline behind its equals sign. -/
theorem last_of_fits_assignmentTo (present : target ≠ []) (inLine : ∀ c ∈ target, c ≠ '\n')
    {before body after : Text} {captures : List Capture}
    (fits : (assignmentTo target).Fits before body after captures) :
    ∃ front c, body = front ++ [c] ∧ (c = '\n' → front.getLast? = some '=') := by
  obtain ⟨first, back, _, _, rfl, -, -, _, -, named⟩ := fits
  suffices ∃ front c, back = front ++ [c] ∧ (c = '\n' → front.getLast? = some '=') by
    obtain ⟨front, c, rfl, equals⟩ := this
    exact ⟨first ++ front, c, by simp, fun newline => by simp [equals newline]⟩
  obtain ⟨front, c, rfl⟩ := (List.eq_nil_or_concat target).resolve_left present
  rcases named with updated | ⟨named, tail, _, _, rfl, -, -, tailFits⟩
  · -- An update in front of the name ends in the name.
    obtain ⟨sign, _, _, _, rfl, -, -, further⟩ := fits_sequence_cons.mp updated
    obtain ⟨gap, _, _, _, rfl, -, -, further⟩ := fits_sequence_cons.mp further
    obtain ⟨_, _, _, _, rfl, -, spelled, -, rfl, -⟩ := further
    obtain ⟨rfl, -⟩ := fits_word.mp spelled
    exact ⟨sign ++ (gap ++ front), c, by simp, fun newline => absurd newline (inLine c (by simp))⟩
  · rcases tailFits with ⟨gap, sign, _, _, rfl, -, -, signed⟩ | assigned
    · -- An update behind the name ends in its sign.
      obtain ⟨⟨sign, listed, rfl⟩, -⟩ := fits_litOf.mp signed
      simp only [List.mem_cons, List.not_mem_nil, or_false] at listed
      rcases listed with rfl | rfl
      · exact ⟨named ++ (gap ++ ['+']), '+', by simp, by simp⟩
      · exact ⟨named ++ (gap ++ ['-']), '-', by simp, by simp⟩
    · obtain ⟨gap, _, _, _, rfl, -, -, further⟩ := fits_sequence_cons.mp assigned
      obtain ⟨_, shown, _, _, rfl, -, ⟨compound, _, _, _, rfl, -, -, spelled⟩, shows⟩ :=
        fits_sequence_cons.mp further
      obtain ⟨rfl, -⟩ := fits_lit.mp spelled
      rcases shows with ⟨⟨d, -, rfl⟩, -⟩ | ⟨-, rfl, -⟩
      · exact ⟨named ++ (gap ++ (compound ++ ['='])), d, by simp, by simp⟩
      · exact ⟨named ++ (gap ++ compound), '=', by simp, by simp⟩

/-- A match of an assignment takes at least the name. -/
theorem moves_assignmentTo (present : target ≠ []) (inLine : ∀ c ∈ target, c ≠ '\n') :
    (assignmentTo target).Moves := by
  intro cursor found matched
  obtain ⟨reading, first, rfl⟩ := Option.map_eq_some_iff.mp matched
  obtain ⟨body, captures, spans, fits, -⟩ :=
    advances_of_mem_ends _ ⟨cursor, []⟩ reading (List.mem_of_mem_head? first)
  obtain ⟨front, c, rfl, -⟩ := last_of_fits_assignmentTo present inLine fits
  exact spans.offset_lt_iff.mpr (by simp)

/-- Where an assignment stops, around its last character. -/
theorem exists_last (present : target ≠ []) (inLine : ∀ c ∈ target, c ≠ '\n')
    (listed : assigned ∈ (assignmentTo target).allMatches rest) :
    ∃ c passed, assigned.whole.stop.before = c :: passed ∧ assigned.body.getLast? = some c ∧
      (c = '\n' → passed.head? = some '=') := by
  obtain ⟨left, right, captures, occurs⟩ := occurs_of_mem_allMatches listed
  obtain ⟨front, c, body, equals⟩ := last_of_fits_assignmentTo present inLine occurs.fits
  refine ⟨c, front.reverse ++ assigned.whole.start.before, ?_, by simp [body], ?_⟩
  · rw [occurs.spans.behind, body]
    simp
  · intro newline
    simp [equals newline]

/-- The last byte of an assignment is code in both forms or in none, unless it is a newline. -/
theorem inCode_last_crlf (none : Mode.code.ContinuesNone (front ++ rest)) {stop : Cursor}
    (within : stop.Within rest) {c : Char} {passed : Text} (last : stop.before = c :: passed)
    (notNewline : c ≠ '\n') :
    (front ++ rest).crlf.layout.inCode (front.crlf.width + stop.crlf.offset - 1) =
      (front ++ rest).layout.inCode (front.width + stop.offset - 1) := by
  have positive : 0 < c.utf8Size := c.utf8Size_pos
  have split : front ++ rest = front ++ passed.reverse ++ c :: stop.after := by
    rw [within, last]
    simp
  have byte : front.width + stop.offset - 1 =
      Text.width (front ++ passed.reverse) + (c.utf8Size - 1) := by
    rw [stop.placed, last, Text.width_append, Text.width_reverse, Text.width_cons]
    omega
  have byte' : front.crlf.width + stop.crlf.offset - 1 =
      Text.width (Text.crlf (front ++ passed.reverse)) + (c.utf8Size - 1) := by
    have offset : stop.crlf.offset =
        Text.width (Text.crlf passed.reverse) + c.utf8Size := by
      rw [stop.crlf.placed, Cursor.before_crlf, last, Text.width_reverse]
      simp [Text.crlf_cons notNewline]
    rw [offset, Text.crlf_append, Text.width_append]
    omega
  rw [byte, byte', split]
  exact Text.inCode_crlf_byte (split ▸ none) notNewline (by omega)

/-- The newline behind an equals sign, and the carriage return that an assignment takes in its
place: the one is code if the equals sign is, and the other just then. -/
theorem inCode_break (none : Mode.code.ContinuesNone (front ++ rest)) (within : place.Within rest)
    {passed below : Text} (equals : place.before = '=' :: passed)
    (ahead : place.after = '\n' :: below) :
    (front ++ rest).crlf.layout.inCode (front.crlf.width + place.closed.offset - 1) =
        (front ++ rest).layout.inCode (front.width + place.offset - 1) ∧
      ((front ++ rest).layout.inCode (front.width + place.offset - 1) = true →
        (front ++ rest).layout.inCode (front.width + place.offset) = true) := by
  have plain : Mode.isPlain '=' = true := by decide
  have narrow : '='.utf8Size = 1 := rfl
  have split : front ++ rest = front ++ passed.reverse ++ '=' :: '\n' :: below := by
    rw [within, equals, ahead]
    simp
  have byte : front.width + place.offset = Text.width (front ++ passed.reverse) + 1 := by
    rw [place.placed, equals, Text.width_append, Text.width_reverse, Text.width_cons, narrow]
    omega
  have byte' : front.crlf.width + place.closed.offset - 1 =
      Text.width (Text.crlf (front ++ passed.reverse)) + 1 := by
    have newline : place.atNewline = true := Cursor.atNewline_iff.mpr ⟨below, ahead⟩
    have offset : place.crlf.offset = Text.width (Text.crlf passed.reverse) + 1 := by
      rw [place.crlf.placed, Cursor.before_crlf, equals, Text.width_reverse]
      simp [Text.crlf_cons, narrow]
    rw [Cursor.Within.offset_closed newline, offset, Text.crlf_append, Text.width_append]
    omega
  rw [byte, byte', split, Nat.add_sub_cancel]
  exact ⟨Text.inCode_cr (split ▸ none) plain, Text.inCode_newline plain⟩

/-- An assignment counts in both forms or in none. If it takes a newline along, the carriage return
in its place is code because the equals sign is. -/
theorem assigns_crlf (none : Mode.code.ContinuesNone (front ++ rest)) (present : target ≠ [])
    (inLine : ∀ c ∈ target, c ≠ '\n') (listed : assigned ∈ (assignmentTo target).allMatches rest)
    (matched' : (assignmentTo target).matchAt? place = some assigned')
    (meets : assigned.Meets assigned')
    (counts : assigned.body.getLast? = some '\n' → assigns (front ++ rest) front assigned = true →
      (front ++ rest).layout.inCode (front.width + assigned.stop - 2) = true) :
    assigns (front ++ rest).crlf front.crlf assigned' =
      assigns (front ++ rest) front assigned := by
  obtain ⟨_, -, matched⟩ := matchAt?_of_mem_matchesFrom listed
  have starts := meets.starts 1 (by decide)
  rw [assigns] at counts ⊢
  rw [assigns]
  cases group : assigned.group? 1 with
  | none =>
    rw [group, Option.map_none, Option.map_eq_none_iff] at starts
    rw [starts]
    rfl
  | some piece =>
    rw [group, Option.map_some, Option.map_eq_some_iff] at starts
    obtain ⟨piece', group', start⟩ := starts
    have declared : declares (front.crlf ++ piece'.start.before.reverse) =
        declares (front ++ piece.start.before.reverse) := by
      rw [start, ← declares_crlf (front ++ _), Text.crlf_append, Cursor.before_crlf,
        List.reverse_reverse]
    have within := (within_of_mem_allMatches listed group).stop
    rw [group, Option.any_some] at counts
    rw [group', Option.any_some, Option.any_some, declared]
    have stop := stop_of_group? matched group
    obtain ⟨c, passed, last, body, equals⟩ := exists_last present inLine listed
    rw [stop] at within counts ⊢
    rw [stop_of_group? matched' group']
    rw [Match.stop] at counts
    have meets' := meets.stop
    generalize assigned.whole.stop = cursor at *
    generalize assigned'.whole.stop = cursor' at *
    cases meets' with
    | same other =>
      have notNewline : c ≠ '\n' := by simpa [last] using other
      rw [inCode_last_crlf none within last notNewline]
    | @broken place below ahead =>
      obtain ⟨rfl, rfl⟩ : '\n' = c ∧ place.before = passed := by simpa [Cursor.pass] using last
      obtain ⟨passed, equals⟩ := List.head?_eq_some_iff.mp (equals rfl)
      have within' : place.Within rest := by
        rw [Cursor.Within, within, ahead]
        simp [Cursor.pass]
      obtain ⟨moved, shows⟩ := inCode_break none within' equals ahead
      have offset : (place.pass '\n' below).offset = place.offset + 1 := rfl
      have newline : front.width + (place.offset + 1) - 1 = front.width + place.offset := by omega
      have sign : front.width + (place.offset + 1) - 2 = front.width + place.offset - 1 := by omega
      rw [offset, newline, sign] at counts
      rw [moved, offset, newline]
      cases inCode : (front ++ rest).layout.inCode (front.width + place.offset - 1) with
      | true => rw [shows inCode]
      | false =>
        -- An assignment that counts has its equals sign in code.
        rw [Bool.and_false]
        refine (Bool.eq_false_iff.mpr fun passes => ?_).symm
        exact Bool.false_ne_true (inCode.symm.trans (counts body passes))

/-- The assignments behind a declaration agree in both forms, provided those that take a newline
along do. -/
theorem agrees_assigns {found : Match} (none : Mode.code.ContinuesNone text)
    (within : found.whole.stop.Within text) (present : target ≠ [])
    (inLine : ∀ c ∈ target, c ≠ '\n')
    (alike : ∀ assigned ∈ (assignmentTo target).allMatches found.whole.stop.after,
      assigned.body.getLast? = some '\n' →
        agreesAtBreak text target found.whole.stop assigned = true) :
    (assignmentTo target).Agrees (assigns text found.whole.stop.before.reverse)
      (assigns text.crlf (Text.crlf found.whole.stop.before.reverse))
      ((assignmentTo target).allMatches found.whole.stop.after) := by
  constructor
  · intro assigned listed place assigned' matched meets
    rw [within] at none ⊢
    refine assigns_crlf none present inLine listed matched meets fun newline counts => ?_
    rw [← within] at counts ⊢
    have agrees := alike assigned listed newline
    rw [agreesAtBreak, if_pos counts, Cursor.Within.offset_eq] at agrees
    exact agrees
  · intro assigned listed fails place below ahead stop
    obtain ⟨c, passed, last, body, -⟩ := exists_last present inLine listed
    obtain ⟨rfl, -⟩ : '\n' = c ∧ place.before = passed := by simpa [stop, Cursor.pass] using last
    have agrees := alike assigned listed body
    have whole : assigned.group? 0 = some assigned.whole := rfl
    have within' := (within_of_mem_allMatches listed whole).stop
    have inside : place.Within found.whole.stop.after := by
      rw [Cursor.Within, within', stop, ahead]
      simp [Cursor.pass]
    have reached : place.offset + 1 = assigned.stop := by
      rw [Match.stop, stop]
      rfl
    rw [agreesAtBreak, fails, if_neg Bool.false_ne_true, List.all_eq_true] at agrees
    simpa [reached] using agrees place inside.mem_all

/-- A constant is reported in both forms or in none: the search behind its declaration comes to the
same verdict in both. -/
theorem isReported_crlf [Engine] (none : Mode.code.ContinuesNone text)
    (alike : BreaksAlike text) {found : Match} (member : found ∈ declaration.allMatches text) :
    isReported text.crlf found.crlf = isReported text found := by
  have whole : found.group? 0 = some found.whole := rfl
  have within := (within_of_mem_allMatches member whole).stop
  have inCode : text.crlf.layout.inCode found.crlf.start = text.layout.inCode found.start :=
    inCode_start_crlf steady_declaration.shuns none member rfl
  rw [isReported, isReported, Match.group?_crlf, inCode]
  cases group : found.group? 1 with
  | none => rfl
  | some declared =>
    obtain ⟨⟨present, parts⟩, same⟩ := Phrase.name_of_group? rfl (by decide) member group
    have inLine : ∀ c ∈ declared.body, c ≠ '\n' := fun c listed => (parts c listed).2
    have assigned := any_allMatches_fresh (relates_assigning present parts)
      (shuns_assigning present parts) (moves_assignmentTo present inLine) found.whole.stop.after
      (agrees_assigns none within present inLine (alike found member declared (by simp [group])))
    rw [Option.map_some, Option.any_some, Option.any_some, same]
    show (_ && _ && ((assignmentTo declared.body).allMatches found.whole.stop.crlf.after).any
      (assigns text.crlf found.whole.stop.crlf.before.reverse)) = _
    rw [Cursor.before_crlf, List.reverse_reverse, Cursor.after_crlf]
    exact congrArg _ assigned

/-- The rule about constants is unmoved, given the same assignments. -/
theorem unmoved_constant [Engine] (none : Mode.code.ContinuesNone text) (alike : BreaksAlike text) :
    constant.Unmoved known text := by
  have decides (text : Text) (found : Match) (member : found ∈ declaration.allMatches text) :
      (isReassigned ⟨text, text.layout, known, found⟩).Decides (fun _ => false)
        (isReported text found) := by
    obtain ⟨left, right, captures, occurs⟩ := occurs_of_mem_allMatches member
    exact decides_isReassigned _ occurs
  exact Rule.unmoved_of_follows rfl decides (follows_of_steady steady_declaration
    fun found member => isReported_crlf none alike member)

end Reassignment

/-! ### All rules -/

/-- Every built-in rule is unmoved. The rules are gone through by kind; only the one about constants
needs a condition of its own. -/
theorem Rule.unmoved_of_mem_builtin [Engine] {rule : Rule}
    (builtin : rule ∈ Catalogue.builtin.rules) (noCr : '\r' ∉ text)
    (none : Mode.code.ContinuesNone text)
    (alike : rule = Reassignment.constant → Reassignment.BreaksAlike text) :
    rule.Unmoved known text := by
  have balance := text.balance_crlf none
  simp only [Catalogue.builtin, List.mem_cons, List.not_mem_nil, or_false] at builtin
  rcases builtin with
    rfl | rfl | rfl | rfl | rfl | rfl | rfl | rfl | rfl | rfl | rfl | rfl | rfl
  · exact Semicolon.unmoved_missing noCr none
  · exact Block.unmoved_bareIf none
  · exact Block.unmoved_bareElse none
  · exact Reassignment.unmoved_constant none (alike rfl)
  · exact Spelling.unmoved_misspelling _ _ (by decide) _ none
  · exact Spelling.unmoved_misspelling _ _ (by decide) _ none
  · exact Spelling.unmoved_misspelling _ _ (by decide) _ none
  · exact Delimiter.unmoved_unclosedConsoleCall none
  · exact Delimiter.unmoved_leftOpen _ _ (by decide) (by decide) (by rw [balance])
  · exact Delimiter.unmoved_leftOpen _ _ (by decide) (by decide) (by rw [balance])
  · exact Delimiter.unmoved_leftOpen _ _ (by decide) (by decide) (by rw [balance])
  · exact Return.unmoved_missing none
  · exact Call.unmoved_undefined none

namespace Checker

/-- With any of the built-in rules left out, the findings for a text without carriage returns
stay at their lines and columns when a carriage return is put in front of every newline, if
no backslash continues a quoted literal on the next line and, unless the rule is left out,
every assignment to a constant that takes a newline behind its equals sign along is the same
assignment with a carriage return there. -/
theorem inspect_crlf [Engine] (keep : Rule → Bool) (globals : Globals) (text : Text)
    (noCr : '\r' ∉ text) (none : Mode.code.ContinuesNone text)
    (alike : keep Reassignment.constant = true → Reassignment.BreaksAlike text) :
    ((keeping keep (fun _ => .accepted) globals).inspect text.crlf).map Finding.position =
      ((keeping keep (fun _ => .accepted) globals).inspect text).map Finding.position := by
  have parser (text : Text) :
      (keeping keep (fun _ => .accepted) globals).parserFindings text = [] := rfl
  rw [inspect, inspect, parser, parser, List.nil_append, List.nil_append, List.map_flatMap,
    List.map_flatMap]
  refine List.flatMap_congr fun rule listed => ?_
  obtain ⟨builtin, kept⟩ := List.mem_filter.mp listed
  have unmoved : rule.Unmoved globals.knows text :=
    Rule.unmoved_of_mem_builtin builtin noCr none fun same => alike (same ▸ kept)
  have given : ∀ found : Option (List Finding),
      (found.getD []).map Finding.position = (found.map (List.map Finding.position)).getD [] := by
    intro found
    cases found <;> rfl
  exact (given _).trans ((congrArg (·.getD []) unmoved).trans (given _).symm)

/-- A literal that goes on over a line end, an assignment to a constant that does, and a
variable of the same name that is declared over a line end. -/
theorem inspect_crlf_over_line_ends :
    let _ : Engine := .unlimited
    let checker := keeping (fun _ => true) (fun _ => .accepted) .builtin
    let text : Text := "const a = \x60b\\\nc\x60;\nlet a =\n f();\na =\n2;\n".toList
    ('\r' ∉ text ∧ Mode.code.ContinuesNone text ∧ Reassignment.BreaksAlike text) ∧
      (checker.inspect text.crlf).map Finding.position =
        (checker.inspect text).map Finding.position ∧
      (checker.inspect text).map Finding.position =
        [("const-reassignment", some 1, some 1), ("undefined-function", some 4, some 2)] := by
  intro _ checker text
  have alike : Reassignment.BreaksAlike text := by decide +kernel
  have none : Mode.code.ContinuesNone text := by decide +kernel
  exact ⟨⟨by decide, none, alike⟩,
    inspect_crlf _ _ text (by decide) none fun _ => alike, by decide +kernel⟩

/-- A literal that a backslash continues on the next line is broken off by a carriage return. -/
theorem inspect_crlf_breaks_literal :
    let _ : Engine := .unlimited
    let checker := keeping (fun _ => true) (fun _ => .accepted) .builtin
    let text : Text := "x = \"a\\\nb\";\n".toList
    '\r' ∉ text ∧ (checker.inspect text).map Finding.position = [] ∧
      (checker.inspect text.crlf).map Finding.position =
        [("unclosed-string", some 1, some 5)] := by
  decide +kernel

-- At the end of a comment the newline is code, and a carriage return is not.
example :
    let _ : Engine := .unlimited
    let checker := keeping (fun _ => true) (fun _ => .accepted) .builtin
    let text : Text := "const x = 1;\n// x =\n".toList
    (checker.inspect text).map Finding.position = [("const-reassignment", some 1, some 1)] ∧
      (checker.inspect text.crlf).map Finding.position = [] := by
  decide +kernel

-- Behind a carriage return the newline lets the second assignment start.
example :
    let _ : Engine := .unlimited
    let checker := keeping (fun _ => true) (fun _ => .accepted) .builtin
    let text : Text := "const x = 1;\nlet x =\nx = 2;\n".toList
    (checker.inspect text).map Finding.position = [] ∧
      (checker.inspect text.crlf).map Finding.position =
        [("const-reassignment", some 1, some 1)] := by
  decide +kernel

end Checker

end ScriptCheck
