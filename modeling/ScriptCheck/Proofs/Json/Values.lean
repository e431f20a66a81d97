import ScriptCheck.Proofs.Json.Members
import ScriptCheck.Proofs.Json.Scalars

/-!
# Reading back values

A value that is written on one line is read as that value, if its members are sorted, it
is not nested too deep and its numbers are read back one by one. Reading yields no other
values, up to the rounding of binary numbers. The line holds no line break, whatever the
texts in the value.
-/

namespace ScriptCheck.Json

/-- Values in the form that reading gives them: nested at most `depth` levels deep, with
sorted members, and with numbers for which `holds` is true. -/
inductive Regular (holds : JsonNumber → Prop) : Nat → Json → Prop where
  | null {depth : Nat} : Regular holds depth null
  | bool {depth : Nat} (value : Bool) : Regular holds depth (bool value)
  | number {depth : Nat} {value : JsonNumber} : holds value → Regular holds depth (number value)
  | string {depth : Nat} (value : Text) : Regular holds depth (string value)
  | array {depth : Nat} {items : List Json} :
      (∀ item ∈ items, Regular holds depth item) → Regular holds (depth + 1) (array items)
  | object {depth : Nat} {members : List (Text × Json)} :
      Sorted members → (∀ member ∈ members, Regular holds depth member.2) →
      Regular holds (depth + 1) (object members)

/-! ### Writing -/

/-- A character of texts with commas between them is a comma or stands in one of the texts. -/
theorem mem_commaSeparated {c : Char} {texts : List Text} (mem : c ∈ commaSeparated texts) :
    c = ',' ∨ ∃ text ∈ texts, c ∈ text := by
  induction texts with
  | nil => cases mem
  | cons first rest ih =>
    cases rest with
    | nil => exact .inr ⟨first, List.mem_cons_self, mem⟩
    | cons second rest =>
      rw [commaSeparated] at mem
      · rcases List.mem_append.mp mem with here | later
        · exact .inr ⟨first, List.mem_cons_self, here⟩
        · rcases List.mem_cons.mp later with comma | later
          · exact .inl comma
          · rcases ih later with comma | ⟨text, listed, mem⟩
            · exact .inl comma
            · exact .inr ⟨text, List.mem_cons_of_mem _ listed, mem⟩
      · simp

/-- A number is written on one line. -/
theorem newline_not_mem_numberText (value : JsonNumber) : '\n' ∉ numberText value := by
  intro mem
  have numeral := List.all_eq_true.mp (all_numberText value) '\n' mem
  cases numeral

/-- Texts of one line each are on one line when enclosed. -/
theorem newline_not_mem_enclosed {opener closer : Char} {texts : List Text} (opens : opener ≠ '\n')
    (closes : closer ≠ '\n') (single : ∀ text ∈ texts, '\n' ∉ text) :
    '\n' ∉ opener :: commaSeparated texts ++ [closer] := by
  intro mem
  rw [List.cons_append, List.mem_cons, List.mem_append, List.mem_singleton] at mem
  rcases mem with same | mem | same
  · exact opens same.symm
  · rcases mem_commaSeparated mem with comma | ⟨text, listed, mem⟩
    · cases comma
    · exact single text listed mem
  · exact closes same.symm

mutual

/-- A value is written on one line. -/
theorem newline_not_mem_compact : (value : Json) → '\n' ∉ value.compact
  | null => by decide
  | bool true => by decide
  | bool false => by decide
  | number value => newline_not_mem_numberText value
  | string value => newline_not_mem_stringText value
  | array items =>
    newline_not_mem_enclosed (by decide) (by decide) (newline_not_mem_compactItems items)
  | object members =>
    newline_not_mem_enclosed (by decide) (by decide) (newline_not_mem_compactMembers members)

/-- Each item of an array is written on one line. -/
theorem newline_not_mem_compactItems :
    (items : List Json) → ∀ text ∈ compactItems items, '\n' ∉ text
  | [] => fun _ mem => absurd mem List.not_mem_nil
  | item :: rest => by
    intro text mem
    rcases List.mem_cons.mp mem with rfl | later
    · exact newline_not_mem_compact item
    · exact newline_not_mem_compactItems rest text later

/-- Each member of an object is written on one line. -/
theorem newline_not_mem_compactMembers :
    (members : List (Text × Json)) → ∀ text ∈ compactMembers members, '\n' ∉ text
  | [] => fun _ mem => absurd mem List.not_mem_nil
  | (name, value) :: rest => by
    intro text mem
    rcases List.mem_cons.mp mem with rfl | later
    · rw [List.mem_append, List.mem_cons]
      rintro (named | absurd | valued)
      · exact newline_not_mem_stringText name named
      · cases absurd
      · exact newline_not_mem_compact value valued
    · exact newline_not_mem_compactMembers rest text later

end

/-! ### Reading back -/

/-- A value that is read as it is written, in front of whatever may follow it. -/
def ReadsAs (depth : Nat) (value : Json) : Prop :=
  ∀ (bound : Nat) (rest : Text), value.compact.length < bound → Follows rest →
    readValue bound depth (value.compact ++ rest) = some (value, rest)

/-- At least one step is always left. -/
theorem readsAs_of_succ {depth : Nat} {value : Json}
    (read : ∀ (bound : Nat) (rest : Text), value.compact.length ≤ bound → Follows rest →
      readValue (bound + 1) depth (value.compact ++ rest) = some (value, rest)) :
    ReadsAs depth value := by
  intro bound rest enough follows
  cases bound with
  | zero => cases enough
  | succ bound => exact read bound rest (Nat.le_of_lt_succ enough) follows

/-- A text that a value may start with: no blank, and not the end of an array. -/
def Starts (text : Text) : Prop :=
  ∃ c rest, text = c :: rest ∧ isGap c = false ∧ c ≠ ']'

/-- Where no blank is at the start of a text, nothing is skipped. -/
theorem skipGap_cons {c : Char} (shown : isGap c = false) (rest : Text) :
    skipGap (c :: rest) = c :: rest := by
  rw [skipGap, List.dropWhile_cons_of_neg (by simp [shown])]

/-- The characters with which a number starts. -/
theorem head_numberText {value : JsonNumber} (readsBack : ReadsBack value) :
    ∃ c rest, numberText value = c :: rest ∧ isNumeral c = true := by
  obtain ⟨written, read, -⟩ := readsBack
  have numerals := all_numberText value
  cases same : numberText value with
  | nil =>
    rw [same] at read
    cases read
  | cons c rest =>
    rw [same, List.all_cons, Bool.and_eq_true] at numerals
    exact ⟨c, rest, rfl, numerals.1⟩

/-- A character of a number starts nothing else. -/
theorem isNumeral_cases {c : Char} (numeral : isNumeral c = true) :
    isGap c = false ∧ c ≠ ']' ∧ c ≠ '[' ∧ c ≠ '\x7b' ∧ c ≠ '\x22' ∧ c ≠ 'n' ∧ c ≠ 't' ∧
      c ≠ 'f' := by
  have shown : isGap c = false := by
    rw [Bool.eq_false_iff]
    intro gap
    simp only [isGap, Bool.or_eq_true, beq_iff_eq] at gap
    rcases gap with ((rfl | rfl) | rfl) | rfl <;> cases numeral
  refine ⟨shown, ?_, ?_, ?_, ?_, ?_, ?_, ?_⟩ <;> (rintro rfl; cases numeral)

/-- A value is written with no blank or array end in front. -/
theorem starts_compact {depth : Nat} {value : Json} (regular : Regular ReadsBack depth value) :
    Starts value.compact := by
  cases regular with
  | null => exact ⟨'n', _, rfl, by decide, by decide⟩
  | bool value => cases value <;> exact ⟨_, _, rfl, by decide, by decide⟩
  | number readsBack =>
    obtain ⟨c, rest, same, numeral⟩ := head_numberText readsBack
    exact ⟨c, rest, same, (isNumeral_cases numeral).1, (isNumeral_cases numeral).2.1⟩
  | string value => exact ⟨'\x22', _, rfl, by decide, by decide⟩
  | array each => exact ⟨'[', _, rfl, by decide, by decide⟩
  | object sorted each => exact ⟨'\x7b', _, rfl, by decide, by decide⟩

/-- A text that starts like a number is read as one, if its digits are worth a number. -/
theorem readValue_numeral {c : Char} (numeral : isNumeral c = true) (bound depth : Nat)
    (text : Text) :
    readValue (bound + 1) depth (c :: text) =
      (readWritten (c :: text)).bind fun read =>
        read.1.value?.map fun value => (number value, read.2) := by
  obtain ⟨shown, -, square, brace, quote, n, t, f⟩ := isNumeral_cases numeral
  rw [readValue, skipGap_cons shown]
  split
  · simp_all
  · simp_all
  · simp_all
  · simp_all
  · simp_all
  · simp_all
  · cases readWritten (c :: text) with
    | none => rfl
    | some read => cases worth : read.1.value? <;> simp [worth]

/-- A number that reads back by itself does so as a value. -/
theorem readsAs_number {value : JsonNumber} (readsBack : ReadsBack value) (depth : Nat) :
    ReadsAs depth (number value) := by
  apply readsAs_of_succ
  intro bound rest enough follows
  obtain ⟨c, tail, same, numeral⟩ := head_numberText readsBack
  obtain ⟨written, read, worth⟩ := readsBack
  have whole : readWritten (c :: tail ++ rest) = some (written, rest) := by
    rw [← same, readWritten_append follows, read]
    rfl
  rw [compact, same, List.cons_append, readValue_numeral numeral, ← List.cons_append, whole,
    Option.bind_some, worth, Option.map_some]

/-- The first of several texts is followed by a comma. -/
theorem commaSeparated_cons_cons (first second : Text) (rest : List Text) :
    commaSeparated (first :: second :: rest) = first ++ ',' :: commaSeparated (second :: rest) := by
  rw [commaSeparated]
  simp

/-! One item or member, given what is read for its value. -/

section

variable {bound depth : Nat} {text rest : Text} {value : Json}

/-- Reading an array stops behind the bracket of its last item. -/
theorem readItems_last (read : readValue bound depth text = some (value, ']' :: rest)) :
    readItems (bound + 1) depth text = some ([value], rest) := by
  have closed : skipGap (']' :: rest) = ']' :: rest := skipGap_cons (by decide) rest
  simp only [readItems, read, Option.bind_eq_bind, Option.bind_some, closed, Option.pure_def]

/-- Behind an item and a comma, reading an array goes on. -/
theorem readItems_more (read : readValue bound depth text = some (value, ',' :: rest)) :
    readItems (bound + 1) depth text =
      (readItems bound depth rest).map fun others => (value :: others.1, others.2) := by
  have comma : skipGap (',' :: rest) = ',' :: rest := skipGap_cons (by decide) rest
  simp only [readItems, read, Option.bind_eq_bind, Option.bind_some, comma]
  cases readItems bound depth rest <;> rfl

/-- A written string starts with its quote. -/
theorem skipGap_stringText (name rest : Text) :
    skipGap (stringText name ++ rest) = '\x22' :: (name.flatMap escapeChar ++ '\x22' :: rest) := by
  simp only [stringText, List.cons_append, List.append_assoc, List.nil_append]
  exact skipGap_cons (by decide) _

/-- Reading an object stops behind the brace of its last member. -/
theorem readMembers_last (name : Text)
    (read : readValue bound depth text = some (value, '\x7d' :: rest)) :
    readMembers (bound + 1) depth (stringText name ++ ':' :: text) =
      some ([(name, value)], rest) := by
  have colon : skipGap (':' :: text) = ':' :: text := skipGap_cons (by decide) text
  have closed : skipGap ('\x7d' :: rest) = '\x7d' :: rest := skipGap_cons (by decide) rest
  simp only [readMembers, skipGap_stringText, readString_stringText, Option.bind_eq_bind,
    Option.bind_some, colon, read, closed, Option.pure_def]

/-- Behind a member and a comma, reading an object goes on. -/
theorem readMembers_more (name : Text)
    (read : readValue bound depth text = some (value, ',' :: rest)) :
    readMembers (bound + 1) depth (stringText name ++ ':' :: text) =
      (readMembers bound depth rest).map fun others => ((name, value) :: others.1, others.2) := by
  have colon : skipGap (':' :: text) = ':' :: text := skipGap_cons (by decide) text
  have comma : skipGap (',' :: rest) = ',' :: rest := skipGap_cons (by decide) rest
  simp only [readMembers, skipGap_stringText, readString_stringText, Option.bind_eq_bind,
    Option.bind_some, colon, read, comma]
  cases readMembers bound depth rest <;> rfl

end

/-- Items that are read back one by one are read back in a row. The induction is on the items, the
last one being followed by the bracket. -/
theorem readItems_compactItems {depth : Nat} (bound : Nat) {items : List Json}
    (nonempty : items ≠ []) (each : ∀ item ∈ items, ReadsAs depth item) (rest : Text)
    (enough : (commaSeparated (compactItems items)).length + 1 < bound) :
    readItems bound depth (commaSeparated (compactItems items) ++ ']' :: rest) =
      some (items, rest) := by
  induction items generalizing bound with
  | nil => exact absurd rfl nonempty
  | cons item others ih =>
    cases bound with
    | zero => cases enough
    | succ bound =>
      have first := each item List.mem_cons_self
      cases others with
      | nil =>
        have closing : Follows (']' :: rest) := by simp [Follows]
        simp only [compactItems, commaSeparated] at enough ⊢
        exact readItems_last (first bound _ (by omega) closing)
      | cons second others =>
        have comma (more : Text) : Follows (',' :: more) := by simp [Follows]
        simp only [compactItems, commaSeparated_cons_cons, List.length_append, List.length_cons]
          at enough ih ⊢
        rw [List.append_assoc, List.cons_append,
          readItems_more (first bound _ (by omega) (comma _)),
          ih bound (List.cons_ne_nil _ _)
            (fun item mem => each item (List.mem_cons_of_mem _ mem)) (by omega), Option.map_some]

/-- Members whose values are read back one by one are read back in a row, with the same induction as
for items. -/
theorem readMembers_compactMembers {depth : Nat} (bound : Nat) {members : List (Text × Json)}
    (nonempty : members ≠ []) (each : ∀ member ∈ members, ReadsAs depth member.2) (rest : Text)
    (enough : (commaSeparated (compactMembers members)).length + 1 < bound) :
    readMembers bound depth (commaSeparated (compactMembers members) ++ '\x7d' :: rest) =
      some (members, rest) := by
  induction members generalizing bound with
  | nil => exact absurd rfl nonempty
  | cons member others ih =>
    cases bound with
    | zero => cases enough
    | succ bound =>
      have first := each member List.mem_cons_self
      cases others with
      | nil =>
        have closing : Follows ('\x7d' :: rest) := by simp [Follows]
        simp only [compactMembers, commaSeparated, List.length_append, List.length_cons,
          List.append_assoc, List.cons_append] at enough ⊢
        exact readMembers_last member.1 (first bound _ (by omega) closing)
      | cons second others =>
        have comma (more : Text) : Follows (',' :: more) := by simp [Follows]
        simp only [compactMembers, commaSeparated_cons_cons, List.length_append, List.length_cons,
          List.append_assoc, List.cons_append] at enough ih ⊢
        rw [readMembers_more member.1 (first bound _ (by omega) (comma _)),
          ih bound (List.cons_ne_nil _ _)
            (fun member mem => each member (List.mem_cons_of_mem _ mem)) (by omega),
          Option.map_some]

/-- Behind an opening bracket the items of an array are read. -/
theorem readValue_array {text : Text} (starts : Starts text) (bound depth : Nat) :
    readValue (bound + 1) (depth + 1) ('[' :: text) =
      (readItems bound depth text).map fun read => (array read.1, read.2) := by
  obtain ⟨c, rest, rfl, shown, more⟩ := starts
  have square : skipGap ('[' :: c :: rest) = '[' :: c :: rest := skipGap_cons (by decide) _
  simp only [readValue, square, skipGap_cons shown]
  split
  · rename_i same
    exact absurd (List.cons.inj same).1 more
  · rfl

/-- Behind an opening brace the members of an object are read. -/
theorem readValue_object (text : Text) (bound depth : Nat) :
    readValue (bound + 1) (depth + 1) ('\x7b' :: '\x22' :: text) =
      (readMembers bound depth ('\x22' :: text)).map fun read => (ofMembers read.1, read.2) := by
  have brace : skipGap ('\x7b' :: '\x22' :: text) = '\x7b' :: '\x22' :: text :=
    skipGap_cons (by decide) _
  have quote : skipGap ('\x22' :: text) = '\x22' :: text := skipGap_cons (by decide) _
  simp only [readValue, brace, quote]
  rfl

/-- Texts with commas between them start with the first of them. -/
theorem commaSeparated_cons (first : Text) (rest : List Text) :
    ∃ tail, commaSeparated (first :: rest) = first ++ tail := by
  cases rest with
  | nil => exact ⟨[], (List.append_nil first).symm⟩
  | cons second rest => exact ⟨_, commaSeparated_cons_cons first second rest⟩

/-- An array is read back if its items are. One level of nesting and two steps are spent on its
brackets. -/
theorem readsAs_array {depth : Nat} {items : List Json}
    (starts : ∀ item ∈ items, Starts item.compact) (each : ∀ item ∈ items, ReadsAs depth item) :
    ReadsAs (depth + 1) (array items) := by
  apply readsAs_of_succ
  intro bound rest enough follows
  cases items with
  | nil => rfl
  | cons item others =>
    obtain ⟨tail, separated⟩ := commaSeparated_cons item.compact (compactItems others)
    have begins : Starts (commaSeparated (compactItems (item :: others)) ++ ']' :: rest) := by
      obtain ⟨c, more, same, shown, closes⟩ := starts item List.mem_cons_self
      rw [compactItems, separated, same]
      exact ⟨c, _, rfl, shown, closes⟩
    simp only [compact, List.length_append, List.length_cons, List.length_nil] at enough
    have text : (array (item :: others)).compact ++ rest =
        '[' :: (commaSeparated (compactItems (item :: others)) ++ ']' :: rest) := by
      simp [compact]
    rw [text, readValue_array begins,
      readItems_compactItems bound (List.cons_ne_nil _ _) each rest (by omega), Option.map_some]

/-- An object with sorted members is read back if their values are, since putting sorted members in
order changes nothing. -/
theorem readsAs_object {depth : Nat} {members : List (Text × Json)} (sorted : Sorted members)
    (each : ∀ member ∈ members, ReadsAs depth member.2) :
    ReadsAs (depth + 1) (object members) := by
  apply readsAs_of_succ
  intro bound rest enough follows
  cases members with
  | nil => rfl
  | cons member others =>
    obtain ⟨tail, separated⟩ := commaSeparated_cons
      (stringText member.1 ++ ':' :: member.2.compact) (compactMembers others)
    have begins : ∃ more, commaSeparated (compactMembers (member :: others)) ++ '\x7d' :: rest =
        '\x22' :: more := by
      rw [compactMembers, separated]
      exact ⟨_, rfl⟩
    obtain ⟨more, begins⟩ := begins
    simp only [compact, List.length_append, List.length_cons, List.length_nil] at enough
    have text : (object (member :: others)).compact ++ rest =
        '\x7b' :: (commaSeparated (compactMembers (member :: others)) ++ '\x7d' :: rest) := by
      simp [compact]
    rw [text, begins, readValue_object, ← begins,
      readMembers_compactMembers bound (List.cons_ne_nil _ _) each rest (by omega), Option.map_some,
      ofMembers_eq, insertAll_of_sorted sorted, List.nil_append]

/-- Values in the form that reading gives them are read back. The induction follows the value, one
lemma for each kind. -/
theorem readsAs_of_regular {depth : Nat} {value : Json} (regular : Regular ReadsBack depth value) :
    ReadsAs depth value := by
  induction regular with
  | null => exact readsAs_of_succ fun bound rest enough follows => rfl
  | bool value => exact readsAs_of_succ fun bound rest enough follows => by cases value <;> rfl
  | number readsBack => exact readsAs_number readsBack _
  | string value =>
    apply readsAs_of_succ
    intro bound rest enough follows
    rw [compact, readValue, skipGap_stringText]
    simp only [readString_stringText, Option.map_some]
  | array each ih =>
    exact readsAs_array (fun item mem => starts_compact (each item mem)) ih
  | object sorted each ih => exact readsAs_object sorted ih

/-- What is written for a value is read as that value. -/
theorem read?_compact {value : Json} (regular : Regular ReadsBack nestingLimit value) :
    read? value.compact = some value := by
  have nothing : Follows [] := by simp [Follows]
  have read := readsAs_of_regular regular (value.compact.length + 1) [] (Nat.lt_succ_self _) nothing
  rw [List.append_nil] at read
  rw [read?, read]
  rfl

/-! ### What reading yields -/

/-- An object made of members in regular form is regular. -/
theorem regular_ofMembers {holds : JsonNumber → Prop} {depth : Nat} {members : List (Text × Json)}
    (each : ∀ member ∈ members, Regular holds depth member.2) :
    Regular holds (depth + 1) (ofMembers members) := by
  rw [ofMembers_eq]
  apply Regular.object (sorted_insertAll members List.Pairwise.nil)
  intro member mem
  rcases mem_insertAll mem with given | none
  · exact each member given
  · cases none

mutual

/-- Reading a value yields one in regular form. -/
theorem regular_of_readValue : (bound : Nat) → ∀ {depth : Nat} {text rest : Text} {value : Json},
    readValue bound depth text = some (value, rest) → Regular InRange depth value
  | 0, _, _, _, _, read => by cases read
  | bound + 1, depth, text, rest, value, read => by
    rw [readValue] at read
    split at read
    · cases read
      exact .null
    · cases read
      exact .bool true
    · cases read
      exact .bool false
    · obtain ⟨found, -, same⟩ := Option.map_eq_some_iff.mp read
      cases same
      exact .string found.1
    · cases depth with
      | zero => cases read
      | succ depth =>
        simp only at read
        split at read
        · cases read
          exact .array fun item mem => absurd mem List.not_mem_nil
        · obtain ⟨found, itemsRead, same⟩ := Option.map_eq_some_iff.mp read
          cases same
          exact .array (regular_of_readItems bound itemsRead)
    · cases depth with
      | zero => cases read
      | succ depth =>
        simp only at read
        split at read
        · cases read
          exact .object List.Pairwise.nil fun member mem => absurd mem List.not_mem_nil
        · obtain ⟨found, membersRead, same⟩ := Option.map_eq_some_iff.mp read
          cases same
          exact regular_ofMembers (regular_of_readMembers bound membersRead)
    · simp only [Option.bind_eq_bind, Option.bind_eq_some_iff] at read
      obtain ⟨written, -, number, worth, same⟩ := read
      cases same
      exact .number (inRange_of_value? worth)

/-- Reading items yields values in regular form. -/
theorem regular_of_readItems : (bound : Nat) → ∀ {depth : Nat} {text rest : Text}
    {items : List Json}, readItems bound depth text = some (items, rest) →
    ∀ item ∈ items, Regular InRange depth item
  | 0, _, _, _, _, read => by cases read
  | bound + 1, depth, text, rest, items, read => by
    simp only [readItems, Option.bind_eq_bind, Option.bind_eq_some_iff] at read
    obtain ⟨first, firstRead, read⟩ := read
    have head := regular_of_readValue bound firstRead
    split at read
    · simp only [Option.bind_eq_some_iff] at read
      obtain ⟨others, othersRead, same⟩ := read
      cases same
      intro item mem
      rcases List.mem_cons.mp mem with rfl | later
      · exact head
      · exact regular_of_readItems bound othersRead item later
    · cases read
      intro item mem
      rw [List.mem_singleton.mp mem]
      exact head
    · cases read

/-- Reading members yields values in regular form. -/
theorem regular_of_readMembers : (bound : Nat) → ∀ {depth : Nat} {text rest : Text}
    {members : List (Text × Json)}, readMembers bound depth text = some (members, rest) →
    ∀ member ∈ members, Regular InRange depth member.2
  | 0, _, _, _, _, read => by cases read
  | bound + 1, depth, text, rest, members, read => by
    rw [readMembers] at read
    split at read
    · simp only [Option.bind_eq_bind, Option.bind_eq_some_iff] at read
      obtain ⟨name, -, read⟩ := read
      split at read
      · simp only [Option.bind_eq_some_iff] at read
        obtain ⟨first, firstRead, read⟩ := read
        have head := regular_of_readValue bound firstRead
        split at read
        · simp only [Option.bind_eq_some_iff] at read
          obtain ⟨others, othersRead, same⟩ := read
          cases same
          intro member mem
          rcases List.mem_cons.mp mem with rfl | later
          · exact head
          · exact regular_of_readMembers bound othersRead member later
        · cases read
          intro member mem
          rw [List.mem_singleton.mp mem]
          exact head
        · cases read
      · cases read
    · cases read

end

/-- Reading yields regular values, with whole numbers of 64 bits. -/
theorem regular_of_read? {text : Text} {value : Json} (read : read? text = some value) :
    Regular InRange nestingLimit value := by
  simp only [read?, Option.bind_eq_bind, Option.bind_eq_some_iff] at read
  obtain ⟨found, valueRead, read⟩ := read
  split at read
  · cases read
    exact regular_of_readValue _ valueRead
  · cases read

/-! ### Binary numbers

A binary number is rounded when it is read, so that what is written for one is not always
read as that number. This is the only way in which a value may fail to be read back. -/

/-- A number that stands somewhere in a value. -/
inductive Contains (number : JsonNumber) : Json → Prop where
  | here : Contains number (.number number)
  | item {items : List Json} {item : Json} :
      item ∈ items → Contains number item → Contains number (array items)
  | member {members : List (Text × Json)} {member : Text × Json} :
      member ∈ members → Contains number member.2 → Contains number (object members)

/-- A value whose binary numbers are read back, each by itself. -/
def Faithful (value : Json) : Prop :=
  ∀ (negative : Bool) (magnitude : Binary64),
    value.Contains (.binary negative magnitude) →
      read? (number (.binary negative magnitude)).compact =
        some (number (.binary negative magnitude))

/-- A number whose text is read as that number reads back by itself, since the text consists of
characters of numbers. -/
theorem readsBack_of_read? {value : JsonNumber}
    (read : read? (number value).compact = some (number value)) : ReadsBack value := by
  have numerals := all_numberText value
  rw [compact] at read
  cases same : numberText value with
  | nil =>
    rw [same] at read
    cases read
  | cons c text =>
    rw [same] at numerals read
    have numeral : isNumeral c = true := List.all_eq_true.mp numerals c List.mem_cons_self
    simp only [read?, readValue_numeral numeral, Option.bind_eq_bind, Option.bind_eq_some_iff,
      Option.map_eq_some_iff] at read
    obtain ⟨found, ⟨written, writtenRead, number, worth, rfl⟩, read⟩ := read
    split at read
    · rename_i blank
      cases read
      have nothing : written.2 = [] := by
        cases left : written.2 with
        | nil => rfl
        | cons d more =>
          -- what is left holds characters of the number only, and none of them is a blank
          have mem : d ∈ c :: text := by
            apply (suffix_of_readWritten writtenRead).subset
            rw [left]
            exact List.mem_cons_self
          have shown := (isNumeral_cases (List.all_eq_true.mp numerals d mem)).1
          rw [left, skipGap_cons shown] at blank
          cases blank
      exact ⟨written.1, by rw [same, writtenRead, ← nothing], worth⟩
    · cases read

/-- A value that is nested at most so deep is nested at most deeper. The induction follows the
value. -/
theorem Regular.mono {holds : JsonNumber → Prop} {depth deeper : Nat} {value : Json}
    (regular : Regular holds depth value) (le : depth ≤ deeper) : Regular holds deeper value := by
  induction regular generalizing deeper with
  | null => exact .null
  | bool value => exact .bool value
  | number holds => exact .number holds
  | string value => exact .string value
  | array each ih =>
    cases deeper with
    | zero => cases le
    | succ deeper =>
      exact .array fun item mem => ih item mem (Nat.le_of_succ_le_succ le)
  | object sorted each ih =>
    cases deeper with
    | zero => cases le
    | succ deeper =>
      exact .object sorted fun member mem =>
        ih member mem (Nat.le_of_succ_le_succ le)

/-- What holds of the numbers in a value may be replaced by something else that follows from it for
these numbers. -/
theorem Regular.imp {holds other : JsonNumber → Prop} {depth : Nat} {value : Json}
    (regular : Regular holds depth value)
    (implies : ∀ number, value.Contains number → holds number → other number) :
    Regular other depth value := by
  induction regular with
  | null => exact .null
  | bool value => exact .bool value
  | number holds => exact .number (implies _ .here holds)
  | string value => exact .string value
  | array each ih =>
    apply Regular.array
    intro item mem
    exact ih item mem fun number contained => implies number (.item mem contained)
  | object sorted each ih =>
    apply Regular.object sorted
    intro member mem
    exact ih member mem fun number contained =>
      implies number (.member mem contained)

/-- A value that was read is read back when it is written again. -/
theorem Regular.readsBack {depth : Nat} {value : Json} (regular : Regular InRange depth value)
    (faithful : Faithful value) : Regular ReadsBack depth value := by
  apply regular.imp
  intro number contained inRange
  cases number with
  | whole value => exact readsBack_whole inRange
  | binary negative magnitude => exact readsBack_of_read? (faithful negative magnitude contained)

/-- The members of a value are one level less deep. -/
theorem Regular.of_member? {holds : JsonNumber → Prop} {depth : Nat} {value member : Json}
    {name : String} (regular : Regular holds depth value)
    (found : value.member? name = some member) :
    ∃ inner, depth = inner + 1 ∧ Regular holds inner member := by
  cases regular with
  | object sorted each =>
    rename_i inner members
    obtain ⟨front, back, rfl, -⟩ := List.lookup_eq_some_iff.mp found
    exact ⟨inner, rfl, each (name.toList, member) (by simp)⟩
  | _ => cases found

/-! ### Values that are put together -/

/-- An array is regular if its items are, one level less deep. -/
theorem regular_array {holds : JsonNumber → Prop} {depth : Nat} {items : List Json}
    (deep : 0 < depth) (each : ∀ item ∈ items, Regular holds (depth - 1) item) :
    Regular holds depth (.array items) := by
  rw [← Nat.sub_add_cancel deep]
  exact .array each

/-- A record is regular if its members are, one level less deep. -/
theorem regular_record {holds : JsonNumber → Prop} {depth : Nat} {members : List (String × Json)}
    (deep : 0 < depth) (each : ∀ member ∈ members, Regular holds (depth - 1) member.2) :
    Regular holds depth (.record members) := by
  rw [← Nat.sub_add_cancel deep]
  apply regular_ofMembers
  intro member mem
  obtain ⟨given, listed, rfl⟩ := List.mem_map.mp mem
  exact each given listed

/-- A string is regular at every depth. -/
theorem regular_ofString {holds : JsonNumber → Prop} (depth : Nat) (s : String) :
    Regular holds depth (.ofString s) := .string s.toList

/-- A natural number that fits into 64 bits is regular. -/
theorem regular_ofNat {n : Nat} (fits : n < wholeLimit) (depth : Nat) :
    Regular ReadsBack depth (.ofNat n) := by
  apply Regular.number
  apply readsBack_whole
  constructor <;> omega

/-- A value that may be missing is regular if it is when there. -/
theorem regular_orNull {holds : JsonNumber → Prop} {depth : Nat} {value : Option Json}
    (each : ∀ shown ∈ value, Regular holds depth shown) : Regular holds depth (.orNull value) := by
  cases value with
  | none => exact .null
  | some shown => exact each shown rfl

end ScriptCheck.Json
