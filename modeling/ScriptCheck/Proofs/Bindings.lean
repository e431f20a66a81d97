import ScriptCheck.Proofs.KnownNames
import ScriptCheck.Proofs.Naming
import ScriptCheck.Proofs.Occurrence

/-!
# The declarations that bind a name

A call is of a known function if the text declares its name somewhere: as the head of a
function or class, as a variable bound to a function, in an import, in a destructuring, or as
a parameter. Here the declarations are given as they are written, whatever stands around
them, and each is shown to be seen.

Three of the searches ask for a word edge beside the name, and a dollar sign is no word
character. `Style.binds` says which names these styles can bind. A search is made only with
a pattern that the engine takes; `Style.patterns` are the ones that a style needs.
-/

namespace ScriptCheck

open Pattern Phrase

namespace Call

/-! ### Declarations as they are written -/

/-- The ways to bind a name. -/
inductive Style where
  | functionHead
  | functionValue
  | classHead
  | importList
  | destructuring
  | parameter
  deriving DecidableEq, Repr

/-- No name goes on over a neighbour. -/
def Parted (neighbour : Option Char) : Prop := ∀ c ∈ neighbour, continuesName c = false

/-- All characters are blank. -/
def Blank (gap : Text) : Prop := ∀ c ∈ gap, isBlank c = true

/-- The start of a function or arrow expression, given the text behind it. -/
inductive StartsFunction (after : Text) : Text → Prop where
  | keyword (ends : Parted after.head?) : StartsFunction after "function".toList
  | parameters : StartsFunction after "(".toList
  | arrow {parameter gap : Text} (named : isName parameter = true) (blank : Blank gap) :
      StartsFunction after (parameter ++ (gap ++ "=>".toList))

/-- A keyword that makes a function asynchronous, or none. -/
def IsAsync (lead : Text) : Prop :=
  lead = [] ∨ ∃ gap, gap ≠ [] ∧ Blank gap ∧ lead = "async".toList ++ gap

/-- A parameter in a list of parameters: a name, which may gather the rest of the arguments
or have a default. -/
def IsParameter (name parameter : Text) : Prop :=
  ∃ pad dots pad' default, Blank pad ∧ dots ∈ ["", "..."] ∧ Blank pad' ∧
    (∀ c ∈ List.head? default, c = '=') ∧ ',' ∉ default ∧
    parameter = pad ++ (dots.toList ++ name ++ (pad' ++ default))

/-- A declaration of a name as it is written, given the texts in front of it and behind it. -/
inductive Declares (name before after : Text) : Style → Text → Prop where
  | functionHead {gap gap' gap'' : Text} {star : String} (starts : Parted before.getLast?)
      (blank : Blank gap) (listed : star ∈ ["", "*"]) (blank' : Blank gap')
      (blank'' : Blank gap'') :
      Declares name before after .functionHead ("function".toList ++ (gap ++ (star.toList ++
        (gap' ++ (name ++ (gap'' ++ "(".toList))))))
  | functionValue {gap gap' gap'' lead function : Text} {keyword : String}
      (starts : Parted before.getLast?) (listed : keyword ∈ ["const", "let", "var"])
      (present : gap ≠ []) (blank : Blank gap) (blank' : Blank gap') (blank'' : Blank gap'')
      (async : IsAsync lead) (bound : StartsFunction after function) :
      Declares name before after .functionValue (keyword.toList ++ (gap ++ (name ++ (gap' ++
        ("=".toList ++ (gap'' ++ (lead ++ function)))))))
  | classHead {gap : Text} (starts : Parted before.getLast?) (present : gap ≠ [])
      (blank : Blank gap) (ends : Parted after.head?) :
      Declares name before after .classHead ("class".toList ++ (gap ++ name))
  | importList {front back : Text} (starts : Parted before.getLast?) (present : front ≠ [])
      (parted : Parted front.head? ∧ Parted front.getLast?) (present' : back ≠ [])
      (parted' : Parted back.head? ∧ Parted back.getLast?)
      (oneLine : ∀ c ∈ front ++ back, notAmong ";\n" c = true) (ends : Parted after.head?) :
      Declares name before after .importList ("import".toList ++ (front ++ (name ++ (back ++
        "from".toList))))
  | destructuring {gap front back gap' : Text} {keyword : String}
      (starts : Parted before.getLast?) (listed : keyword ∈ ["const", "let", "var"])
      (blank : Blank gap) (parted : Parted front.getLast?) (parted' : Parted back.head?)
      (flat : ∀ c ∈ front ++ back, notAmong "\x7d" c = true) (blank' : Blank gap') :
      Declares name before after .destructuring (keyword.toList ++ (gap ++ ("\x7b".toList ++
        (front ++ (name ++ (back ++ ("\x7d".toList ++ (gap' ++ "=".toList))))))))
  | listed {front parameter back gap : Text} {arrow : String}
      (first : ∀ c ∈ front.getLast?, c = ',') (last : ∀ c ∈ back.head?, c = ',')
      (isParameter : IsParameter name parameter)
      (flat : ∀ c ∈ front ++ parameter ++ back, notAmong "()" c = true) (blank : Blank gap)
      (arrows : arrow ∈ ["=>", "\x7b"]) :
      Declares name before after .parameter ("(".toList ++ (front ++ parameter ++ back ++
        (")".toList ++ (gap ++ arrow.toList))))
  | bare {gap : Text} (starts : ∀ c ∈ before.getLast?, continuesName c = false ∧ c ≠ '.')
      (blank : Blank gap) :
      Declares name before after .parameter (name ++ (gap ++ "=>".toList))

/-- Whether a style binds a name. Some look for a word edge beside the name, where a dollar
sign has none. -/
def Style.binds (name : Text) : Style → Bool
  | functionHead | functionValue | parameter => true
  | classHead | importList => name.getLast? != some '$'
  | destructuring => name.head? != some '$' && name.getLast? != some '$'

/-- The patterns by which declarations in a style are searched for. -/
def Style.patterns (name : Text) : Style → List Pattern
  | functionHead => [Call.functionHead name]
  | functionValue => [Call.functionValue name]
  | classHead => [Call.classHead name]
  | importList => [Call.importList name]
  | destructuring => [Call.destructuring name]
  | parameter => [bareParameter name, parameterList, parameterNamed name]

/-- The end of a text parts a name from what is beyond it. -/
theorem parted_none : Parted none := by simp [Parted]

/-- A character of no name parts a name from its neighbours. -/
theorem parted_some {c : Char} (apart : continuesName c = false) : Parted (some c) := by
  simpa [Parted] using apart

/-- One blank character is a blank text. -/
theorem blank_singleton {c : Char} (blank : isBlank c = true) : Blank [c] := by
  simpa [Blank] using blank

/-! ### Word edges beside a name -/

/-- What parts a name is no word character. -/
theorem Parted.any_isWordChar {neighbour : Option Char} (parted : Parted neighbour) :
    neighbour.any isWordChar = false := by
  cases neighbour with
  | none => rfl
  | some c =>
    have part := parted c rfl
    simp only [continuesName, Bool.or_eq_false_iff] at part
    simpa using part.1

/-- A text parts a name if its front does, or its rest if the front is empty. -/
theorem Parted.append {front rest : Text} (first : Parted front.head?)
    (second : front = [] → Parted rest.head?) : Parted (front ++ rest).head? := by
  cases front with
  | nil => exact second rfl
  | cons c front => exact first

/-- The same for a text that is read backwards. -/
theorem Parted.reverse_append {front rest : Text} (first : Parted front.getLast?)
    (second : front = [] → Parted rest.head?) : Parted (front.reverse ++ rest).head? :=
  .append (by rwa [List.head?_reverse]) fun empty => second (by simpa using empty)

/-- A part of a name is a word character or a dollar sign. -/
theorem isWordChar_of_ne {c : Char} (part : continuesName c = true) (other : c ≠ '$') :
    isWordChar c = true := by
  simpa [continuesName, other] using part

/-- A word edge is behind a name that ends in no dollar sign. -/
theorem edge_behind {name before : Text} {next : Option Char} (named : isName name = true)
    (ends : name.getLast? ≠ some '$') (parted : Parted next) :
    (name.reverse ++ before).head?.any isWordChar ≠ next.any isWordChar := by
  obtain ⟨front, last, rfl⟩ := (List.eq_nil_or_concat name).resolve_left (ne_nil_of_isName named)
  have part := continuesName_of_isName named last (by simp)
  have letter := isWordChar_of_ne part (by simpa using ends)
  simp [parted.any_isWordChar, letter]

/-- There is a word edge in front of a name that does not start with a dollar sign. -/
theorem edge_ahead {name after : Text} {previous : Option Char} (named : isName name = true)
    (starts : name.head? ≠ some '$') (parted : Parted previous) :
    previous.any isWordChar ≠ (name ++ after).head?.any isWordChar := by
  obtain ⟨first, rest, rfl⟩ := List.exists_cons_of_ne_nil (ne_nil_of_isName named)
  have part := continuesName_of_isName named first (by simp)
  have letter := isWordChar_of_ne part (by simpa using starts)
  simp [parted.any_isWordChar, letter]

/-- There is a word edge in front of a keyword. -/
theorem edge_of_keyword {keyword : String} {before rest after : Text}
    (starts : Parted before.getLast?)
    (letter : keyword.toList.head?.any isWordChar = true) :
    before.reverse.head?.any isWordChar ≠
      (keyword.toList ++ rest ++ after).head?.any isWordChar := by
  rw [List.head?_reverse, starts.any_isWordChar]
  cases chars : keyword.toList with
  | nil =>
    rw [chars] at letter
    cases letter
  | cons c others => simpa [chars] using letter

/-- The keywords that declare a variable start with a letter. -/
theorem letter_of_declarator {keyword : String} (listed : keyword ∈ ["const", "let", "var"]) :
    keyword.toList.head?.any isWordChar = true := by
  have letters : (["const", "let", "var"].all fun keyword =>
      keyword.toList.head?.any isWordChar) = true := by decide
  exact List.all_eq_true.mp letters keyword listed

/-! ### What the patterns see -/

section Fits

variable {name before after : Text}

/-- A name is declared where one of its patterns fits the text. -/
theorem isDeclared_of_fits [Engine] {pattern : Pattern} {body : Text}
    (listed : pattern ∈ declarations name) (taken : Engine.takes pattern = true)
    (fits : pattern.Fits before.reverse body after []) :
    isDeclared (before ++ body ++ after) name = true := by
  have occurs := occursIn_iff.mpr ⟨before, body, after, [], rfl, fits⟩
  simp only [isDeclared, Bool.or_eq_true, List.any_eq_true]
  exact .inl ⟨pattern, List.mem_filter.mpr ⟨listed, taken⟩, occurs⟩

/-- The head of a function declares its name. -/
theorem isDeclared_functionHead [Engine] {gap gap' gap'' : Text} {star : String}
    (taken : Engine.takes (functionHead name) = true) (starts : Parted before.getLast?)
    (blank : Blank gap) (listed : star ∈ ["", "*"]) (blank' : Blank gap') (blank'' : Blank gap'') :
    isDeclared (before ++ ("function".toList ++ (gap ++ (star.toList ++ (gap' ++ (name ++
      (gap'' ++ "(".toList)))))) ++ after) name = true := by
  have starred {before after : Text} : (optional (lit "*")).Fits before star.toList after [] := by
    simp only [List.mem_cons, List.not_mem_nil, or_false] at listed
    rcases listed with rfl | rfl
    · exact .inr ⟨rfl, rfl⟩
    · exact .inl (fits_lit.mpr ⟨rfl, rfl⟩)
  refine isDeclared_of_fits (by simp [declarations]) taken
    (.cons_edge (edge_of_keyword starts (by decide)) ?_)
  exact .cons (fits_lit.mpr ⟨rfl, rfl⟩) <| .cons (fits_many.mpr ⟨blank, rfl⟩) <|
    .cons starred <| .cons (fits_many.mpr ⟨blank', rfl⟩) <| .cons (fits_word.mpr ⟨rfl, rfl⟩) <|
    .cons (fits_many.mpr ⟨blank'', rfl⟩) (fits_lit.mpr ⟨rfl, rfl⟩)

/-- What may mark a function as asynchronous fits its pattern. -/
theorem fits_asynchronous {before lead after : Text} (async : IsAsync lead) :
    asynchronous.Fits before lead after [] := by
  rcases async with rfl | ⟨gap, present, blank, rfl⟩
  · exact .inr ⟨rfl, rfl⟩
  · exact .inl ⟨"async".toList, gap, [], [], rfl, rfl, fits_lit.mpr ⟨rfl, rfl⟩,
      fits_many1.mpr ⟨present, blank, rfl⟩⟩

/-- What a function value can start with fits the pattern for it. -/
theorem fits_functionStart {before function after : Text} (starts : StartsFunction after function) :
    (choice [functionWord, lit "(", sequence [Phrase.name, blanks, lit "=>"]]).Fits
      before function after [] := by
  cases starts with
  | keyword ends =>
    refine fits_choice.mpr ⟨functionWord, .head _, fits_word_edge.mpr ⟨?_, rfl, rfl⟩⟩
    have letter : isWordChar 'n' = true := by decide
    simp [ends.any_isWordChar, letter]
  | parameters => exact fits_choice.mpr ⟨lit "(", by simp, fits_lit.mpr ⟨rfl, rfl⟩⟩
  | arrow named blank =>
    refine fits_choice.mpr ⟨_, .tail _ (.tail _ (.head _)), ?_⟩
    exact .cons (fits_name.mpr ⟨named, rfl⟩) (.cons (fits_many.mpr ⟨blank, rfl⟩)
      (fits_lit.mpr ⟨rfl, rfl⟩))

/-- A variable that is given a function value is declared. -/
theorem isDeclared_functionValue [Engine] {gap gap' gap'' lead function : Text} {keyword : String}
    (taken : Engine.takes (functionValue name) = true) (starts : Parted before.getLast?)
    (listed : keyword ∈ ["const", "let", "var"]) (present : gap ≠ []) (blank : Blank gap)
    (blank' : Blank gap') (blank'' : Blank gap'') (async : IsAsync lead)
    (bound : StartsFunction after function) :
    isDeclared (before ++ (keyword.toList ++ (gap ++ (name ++ (gap' ++ ("=".toList ++
      (gap'' ++ (lead ++ function))))))) ++ after) name = true := by
  refine isDeclared_of_fits (by simp [declarations]) taken
    (.cons_edge (edge_of_keyword starts (letter_of_declarator listed)) ?_)
  exact .cons (fits_litOf.mpr ⟨⟨keyword, listed, rfl⟩, rfl⟩) <|
    .cons (fits_many1.mpr ⟨present, blank, rfl⟩) <| .cons (fits_word.mpr ⟨rfl, rfl⟩) <|
    .cons (fits_many.mpr ⟨blank', rfl⟩) <| .cons (fits_lit.mpr ⟨rfl, rfl⟩) <|
    .cons (fits_many.mpr ⟨blank'', rfl⟩) <| .cons (fits_asynchronous async)
    (fits_functionStart bound)

/-- The head of a class declares its name. -/
theorem isDeclared_classHead [Engine] {gap : Text} (named : isName name = true)
    (taken : Engine.takes (classHead name) = true) (whole : name.getLast? ≠ some '$')
    (starts : Parted before.getLast?) (present : gap ≠ []) (blank : Blank gap)
    (ends : Parted after.head?) :
    isDeclared (before ++ ("class".toList ++ (gap ++ name)) ++ after) name = true := by
  refine isDeclared_of_fits (by simp [declarations]) taken
    (.cons_edge (edge_of_keyword starts (by decide)) ?_)
  exact .cons (fits_lit.mpr ⟨rfl, rfl⟩) <| .cons (fits_many1.mpr ⟨present, blank, rfl⟩) <|
    fits_word_edge.mpr ⟨edge_behind named whole ends, rfl, rfl⟩

/-- An import declares a name that stands anywhere between its keywords on one line, parted on both
sides, if the name does not end in a dollar sign. -/
theorem isDeclared_importList [Engine] {front back : Text} (named : isName name = true)
    (taken : Engine.takes (importList name) = true) (whole : name.getLast? ≠ some '$')
    (starts : Parted before.getLast?) (present : front ≠ [])
    (parted : Parted front.head? ∧ Parted front.getLast?) (present' : back ≠ [])
    (parted' : Parted back.head? ∧ Parted back.getLast?)
    (oneLine : ∀ c ∈ front ++ back, notAmong ";\n" c = true) (ends : Parted after.head?) :
    isDeclared (before ++ ("import".toList ++ (front ++ (name ++ (back ++ "from".toList)))) ++
      after) name = true := by
  have letter : isWordChar 't' = true ∧ isWordChar 'f' = true ∧ isWordChar 'm' = true := by decide
  have opens {rest : Text} : Parted (front ++ rest).head? :=
    parted.1.append fun empty => absurd empty present
  have closes {rest : Text} : Parted (back ++ rest).head? :=
    parted'.1.append fun empty => absurd empty present'
  have leaves {rest : Text} : Parted (back.reverse ++ rest).head? :=
    parted'.2.reverse_append fun empty => absurd empty present'
  refine isDeclared_of_fits (by simp [declarations]) taken
    (.cons_edge (edge_of_keyword starts (by decide)) (.cons (fits_lit.mpr ⟨rfl, rfl⟩) ?_))
  refine .cons_edge ?_ ?_
  · rw [List.append_assoc, opens.any_isWordChar]
    simp [letter.1]
  obtain ⟨run, last, rfl⟩ := (List.eq_nil_or_concat front).resolve_left present
  rw [List.concat_eq_append] at parted oneLine ⊢
  rw [List.append_assoc]
  refine .cons (fits_many.mpr ⟨fun c inside => oneLine c (by simp [inside]), rfl⟩) <|
    .cons ⟨⟨last, by simpa using parted.2 last (by simp), rfl⟩, rfl⟩ <|
    .cons (fits_word.mpr ⟨rfl, rfl⟩) <| .cons_edge (edge_behind named whole ?_) <|
    .cons (fits_many.mpr ⟨fun c inside => oneLine c (by simp [inside]), rfl⟩) <|
    .cons_edge ?_ (fits_word_edge.mpr ⟨?_, rfl, rfl⟩)
  · rw [List.append_assoc]
    exact closes
  · rw [leaves.any_isWordChar]
    simp [letter.2.1]
  · rw [ends.any_isWordChar]
    simp [letter.2.2]

/-- A name in the braces of a destructuring declaration is declared. The pattern asks for word edges
on both sides of it, so no dollar sign may stand there. -/
theorem isDeclared_destructuring [Engine] {gap front back gap' : Text} {keyword : String}
    (taken : Engine.takes (destructuring name) = true) (named : isName name = true)
    (whole : name.head? ≠ some '$' ∧ name.getLast? ≠ some '$') (starts : Parted before.getLast?)
    (listed : keyword ∈ ["const", "let", "var"]) (blank : Blank gap)
    (parted : Parted front.getLast?) (parted' : Parted back.head?)
    (flat : ∀ c ∈ front ++ back, notAmong "\x7d" c = true) (blank' : Blank gap') :
    isDeclared (before ++ (keyword.toList ++ (gap ++ ("\x7b".toList ++ (front ++ (name ++ (back ++
      ("\x7d".toList ++ (gap' ++ "=".toList)))))))) ++ after) name = true := by
  refine isDeclared_of_fits (by simp [declarations]) taken
    (.cons_edge (edge_of_keyword starts (letter_of_declarator listed)) ?_)
  refine .cons (fits_litOf.mpr ⟨⟨keyword, listed, rfl⟩, rfl⟩) <|
    .cons (fits_many.mpr ⟨blank, rfl⟩) <| .cons (fits_lit.mpr ⟨rfl, rfl⟩) <|
    .cons (fits_many.mpr ⟨?_, rfl⟩) <| .cons_edge ?_ <| .cons (fits_word.mpr ⟨rfl, rfl⟩) <|
    .cons_edge ?_ <| .cons (fits_many.mpr ⟨?_, rfl⟩) <| .cons (fits_lit.mpr ⟨rfl, rfl⟩) <|
    .cons (fits_many.mpr ⟨blank', rfl⟩) (fits_lit.mpr ⟨rfl, rfl⟩)
  · exact fun c inside => flat c (List.mem_append_left _ inside)
  · rw [List.append_assoc]
    exact edge_ahead named whole.1 (parted.reverse_append fun _ => parted_some (by decide))
  · rw [List.append_assoc]
    exact edge_behind named whole.2 (parted'.append fun _ => parted_some (by decide))
  · exact fun c inside => flat c (List.mem_append_right _ inside)

/-- A bare parameter of an arrow function is declared. -/
theorem isDeclared_bare [Engine] {gap : Text}
    (taken : Engine.takes (bareParameter name) = true)
    (starts : ∀ c ∈ before.getLast?, continuesName c = false ∧ c ≠ '.') (blank : Blank gap) :
    isDeclared (before ++ (name ++ (gap ++ "=>".toList)) ++ after) name = true := by
  obtain ⟨front, lead, rfl, clears⟩ : ∃ front lead, before = front ++ lead ∧
      Clears front.reverse lead := by
    rcases List.eq_nil_or_concat before with rfl | ⟨front, last, rfl⟩
    · exact ⟨[], [], rfl, .inl ⟨rfl, rfl⟩⟩
    · exact ⟨front, [last], by simp, .inr ⟨last, starts last (by simp), rfl⟩⟩
  rw [List.append_assoc front]
  refine isDeclared_of_fits (by simp [declarations]) taken
    (.cons (fits_freshName.mpr ⟨clears, rfl⟩) ?_)
  exact .cons (fits_word.mpr ⟨rfl, rfl⟩) <| .cons (fits_many.mpr ⟨blank, rfl⟩)
    (fits_lit.mpr ⟨rfl, rfl⟩)

end Fits

/-! ### Lists of parameters -/

/-- A piece with a separator, or nothing, on each side is one of the pieces that a text is split
into, if it holds no separator itself. -/
theorem mem_splitOn {separator : Char} {front piece back : Text} (absent : separator ∉ piece)
    (first : ∀ c ∈ front.getLast?, c = separator) (last : ∀ c ∈ back.head?, c = separator) :
    piece ∈ (front ++ piece ++ back).splitOn separator := by
  have apart (front back : Text) : (front ++ separator :: back).splitOn separator =
      front.splitOn separator ++ back.splitOn separator :=
    List.splitOnP_append_cons front back (beq_self_eq_true separator)
  have behind : piece ∈ (piece ++ back).splitOn separator := by
    cases back with
    | nil => simp [List.splitOn_eq_singleton absent]
    | cons c back =>
      obtain rfl := last c rfl
      simp [apart, List.splitOn_eq_singleton absent]
  rcases List.eq_nil_or_concat front with rfl | ⟨front, c, rfl⟩
  · exact behind
  · obtain rfl := first c (by simp)
    rw [List.concat_eq_append, List.append_assoc, List.append_assoc, List.singleton_append, apart]
    exact List.mem_append_right _ behind

/-- A parameter holds no comma. -/
theorem IsParameter.single {name parameter : Text} (isParameter : IsParameter name parameter)
    (named : isName name = true) : ',' ∉ parameter := by
  obtain ⟨pad, dots, pad', default, blank, listed, blank', -, single, rfl⟩ := isParameter
  have apart {gap : Text} (blank : Blank gap) : ',' ∉ gap := fun inside =>
    absurd (blank _ inside) (by decide)
  have dotted : (["", "..."].all fun dots => !dots.toList.contains ',') = true := by decide
  have inName : ',' ∉ name := fun inside =>
    ne_of_continuesName (continuesName_of_isName named _ inside) (by decide) rfl
  have inDots : ',' ∉ dots.toList := by simpa using List.all_eq_true.mp dotted dots listed
  simp [apart blank, apart blank', inDots, inName, single]

/-- Without a default, a parameter loses the blanks at its ends. -/
theorem parameterName_append {front default : Text} (plain : ∀ c ∈ front, c ≠ '=')
    (assigned : ∀ c ∈ default.head?, c = '=') : parameterName (front ++ default) = front.trim := by
  have plain' : ∀ c ∈ front, decide (c ≠ '=') = true := by simpa using plain
  rw [parameterName, List.takeWhile_append_of_pos plain']
  cases default with
  | nil => simp
  | cons c default =>
    obtain rfl := assigned c rfl
    simp

/-- Trimming takes away the blanks at both ends and nothing else. -/
theorem trim_padded {pad core pad' : Text} (blank : Blank pad) (blank' : Blank pad')
    (present : core ≠ []) (solid : ∀ c ∈ core, isBlank c = false) :
    Text.trim (pad ++ (core ++ pad')) = core := by
  obtain ⟨c, others, rfl⟩ := List.exists_cons_of_ne_nil present
  have start : Text.trimStart (pad ++ (c :: others ++ pad')) = c :: others ++ pad' := by
    rw [Text.trimStart, List.dropWhile_append_of_pos blank]
    simp [solid c (.head _)]
  rw [Text.trim, start]
  refine Text.trimEnd_append blank' ?_ present
  rw [Option.any_eq_false]
  intro d last
  simpa using solid d (List.mem_of_getLast? last)

/-- Blanks and the default aside, a parameter is its name, with three dots in front of it if it
takes the rest of the arguments. -/
theorem parameterName_of_isParameter {name parameter : Text} (named : isName name = true)
    (isParameter : IsParameter name parameter) :
    parameterName parameter = name ∨ parameterName parameter = "...".toList ++ name := by
  obtain ⟨pad, dots, pad', default, blank, listed, blank', assigned, -, rfl⟩ := isParameter
  have solid : ∀ c ∈ dots.toList ++ name, isBlank c = false ∧ c ≠ '=' := by
    have dotted : (["", "..."].all fun dots => dots.toList.all fun c => !isBlank c && c != '=') =
        true := by decide
    intro c inside
    rcases List.mem_append.mp inside with dot | part
    · simpa using List.all_eq_true.mp (List.all_eq_true.mp dotted dots listed) c dot
    · have part := continuesName_of_isName named c part
      exact ⟨isBlank_of_continuesName part, ne_of_continuesName part (by decide)⟩
  have apart {gap : Text} (blank : Blank gap) : ∀ c ∈ gap, c ≠ '=' := by
    rintro c inside rfl
    exact absurd (blank _ inside) (by decide)
  have plain : ∀ c ∈ pad ++ (dots.toList ++ name ++ pad'), c ≠ '=' :=
    List.forall_mem_append.mpr ⟨apart blank,
      List.forall_mem_append.mpr ⟨fun c inside => (solid c inside).2, apart blank'⟩⟩
  have read : parameterName (pad ++ (dots.toList ++ name ++ (pad' ++ default))) =
      dots.toList ++ name := by
    have regroup : pad ++ (dots.toList ++ name ++ (pad' ++ default)) =
        (pad ++ (dots.toList ++ name ++ pad')) ++ default := by simp
    rw [regroup, parameterName_append plain assigned]
    exact trim_padded blank blank' (by simp [ne_nil_of_isName named])
      fun c inside => (solid c inside).1
  rw [read]
  simp only [List.mem_cons, List.not_mem_nil, or_false] at listed
  rcases listed with rfl | rfl
  · exact .inl rfl
  · exact .inr rfl

/-- What a list of parameters looks like: text without parentheses between two of them, and an arrow
or an opening brace behind. The list is the one group. -/
theorem fits_parameterList {before body after : Text} {captures : List Capture} :
    parameterList.Fits before body after captures ↔
      ∃ list gap arrow, (∀ c ∈ list, notAmong "()" c = true) ∧ Blank gap ∧
        arrow ∈ ["=>", "\x7b"] ∧
        body = "(".toList ++ (list ++ (")".toList ++ (gap ++ arrow.toList))) ∧
        captures = [⟨1, '(' :: before, list⟩] := by
  have fits_arrow {before body after : Text} {captures : List Capture} :
      (either (lit "=>") (lit "\x7b")).Fits before body after captures ↔
        ∃ arrow ∈ ["=>", "\x7b"], body = String.toList arrow ∧ captures = [] := by
    simp [Fits]
  constructor
  · intro fits
    obtain ⟨_, rfl, fits₁⟩ := fits.pass_lit
    obtain ⟨list, _, _, _, rfl, rfl, ⟨flat, rfl⟩, fits₂⟩ := fits₁.pass_group
    obtain ⟨_, rfl, fits₃⟩ := fits₂.pass_lit
    obtain ⟨gap, _, rfl, blank, fits₄⟩ := fits₃.pass_many
    obtain ⟨arrow, listed, rfl, rfl⟩ := fits_arrow.mp fits₄
    exact ⟨list, gap, arrow, flat, blank, listed, rfl, rfl⟩
  · rintro ⟨list, gap, arrow, flat, blank, listed, rfl, rfl⟩
    refine .cons (fits_lit.mpr ⟨rfl, rfl⟩) ?_
    refine fits_sequence_cons.mpr ⟨list, _, [⟨1, _, list⟩], [], rfl, rfl, ⟨[], rfl, flat, rfl⟩, ?_⟩
    exact .cons (fits_lit.mpr ⟨rfl, rfl⟩) <| .cons (fits_many.mpr ⟨blank, rfl⟩)
      (fits_arrow.mpr ⟨arrow, listed, rfl, rfl⟩)

/-- Lists of parameters stand apart: none of them opens inside another one, because there is no
opening parenthesis in a list or behind it. -/
theorem parameterList_clear {left body right left' body' right' : Text} {captures' : List Capture}
    (opens : body.head? = some '(') (same : left ++ body ++ right = left' ++ body' ++ right')
    (fits : parameterList.Fits left'.reverse body' right' captures')
    (ahead : left'.width < left.width) : (left' ++ body').width ≤ left.width := by
  obtain ⟨list, gap, arrow, flat, blank, listed, rfl, -⟩ := fits_parameterList.mp fits
  obtain ⟨rest, rfl⟩ := List.head?_eq_some_iff.mp opens
  set inside := list ++ (")".toList ++ (gap ++ arrow.toList)) with shape
  have absent : '(' ∉ inside := by
    have arrows : (["=>", "\x7b"].all fun arrow => !arrow.toList.contains '(') = true := by decide
    have inList : '(' ∉ list := fun member => absurd (flat _ member) (by decide)
    have inGap : '(' ∉ gap := fun member => absurd (blank _ member) (by decide)
    have inArrow : '(' ∉ arrow.toList := by simpa using List.all_eq_true.mp arrows arrow listed
    simp [shape, inList, inGap, inArrow]
  by_contra reaches
  have whole : left' ++ ('(' :: inside ++ right') = left ++ ('(' :: rest ++ right) := by
    simpa using same.symm
  obtain ⟨inner, rfl, split⟩ := Text.exists_gap_of_width_le whole (Nat.le_of_lt ahead)
  cases inner with
  | nil => simp at ahead
  | cons c inner =>
    obtain ⟨rfl, behind⟩ := List.cons.inj split
    have behind : inner ++ ('(' :: rest ++ right) = inside ++ right' := behind.symm
    have shorter : Text.width inner < inside.width := by
      have opening : Text.width "(".toList = '('.utf8Size := rfl
      simp only [Text.width_append, Text.width_cons, opening] at reaches
      omega
    obtain ⟨more, longer, opened⟩ := Text.exists_gap_of_width_le behind (Nat.le_of_lt shorter)
    cases more with
    | nil =>
      rw [longer, List.append_nil] at shorter
      exact Nat.lt_irrefl _ shorter
    | cons d more =>
      obtain ⟨rfl, -⟩ := List.cons.inj opened
      exact absent (by rw [longer]; simp)

/-- A name in a list of parameters is declared. The list is found by the search, since no other list
overlaps it, and the name is one of its pieces. -/
theorem isDeclared_listed [Engine] {name before after front parameter back gap : Text}
    {arrow : String} (named : isName name = true)
    (taken : Engine.takes parameterList = true ∧ Engine.takes (parameterNamed name) = true)
    (first : ∀ c ∈ front.getLast?, c = ',') (last : ∀ c ∈ back.head?, c = ',')
    (isParameter : IsParameter name parameter)
    (flat : ∀ c ∈ front ++ parameter ++ back, notAmong "()" c = true) (blank : Blank gap)
    (arrows : arrow ∈ ["=>", "\x7b"]) :
    isDeclared (before ++ ("(".toList ++ (front ++ parameter ++ back ++
      (")".toList ++ (gap ++ arrow.toList)))) ++ after) name = true := by
  set list := front ++ parameter ++ back with listed
  have fits : parameterList.Fits before.reverse
      ("(".toList ++ (list ++ (")".toList ++ (gap ++ arrow.toList)))) after
      [⟨1, '(' :: before.reverse, list⟩] :=
    fits_parameterList.mpr ⟨list, gap, arrow, flat, blank, arrows, rfl, rfl⟩
  have never : ∀ before after captures, ¬parameterList.Fits before [] after captures := by
    intro before after captures fits
    obtain ⟨_, _, _, -, -, -, empty, -⟩ := fits_parameterList.mp fits
    simp at empty
  obtain ⟨found, member, start⟩ := exists_mem_allMatches_of_clear fits never
    fun _ _ _ _ same fits' ahead => parameterList_clear rfl same fits' ahead
  have group : (found.group? 1).map Piece.body = some list := by
    obtain ⟨left, right, captures, occurs⟩ := occurs_of_mem_allMatches member
    obtain ⟨list', gap', arrow', flat', -, -, body, rfl⟩ := fits_parameterList.mp occurs.fits
    have whole := occurs.whole
    rw [List.append_assoc, List.append_assoc left] at whole
    obtain ⟨rfl, rest⟩ := Text.append_inj_of_width whole (start.symm.trans occurs.start_eq)
    rw [body] at rest
    obtain ⟨same, -⟩ := @Text.run_unique (notAmong "()") list
      (")".toList ++ (gap ++ arrow.toList) ++ after) list'
      (")".toList ++ (gap' ++ arrow'.toList) ++ right) (by simpa using rest) flat flat'
      (show notAmong "()" ')' = false by decide) (show notAmong "()" ')' = false by decide)
    rw [occurs.map_body_group? Nat.one_pos (by decide), same]
    rfl
  obtain ⟨piece, captured, body⟩ := Option.map_eq_some_iff.mp group
  simp only [isDeclared, Call.isParameter, Bool.or_eq_true, Bool.and_eq_true, List.any_eq_true,
    Option.any_eq_true]
  refine .inr ⟨taken, found, member, piece, captured, parameter, ?_,
    occursIn_parameterNamed.mpr (parameterName_of_isParameter named isParameter)⟩
  rw [body]
  exact mem_splitOn (isParameter.single named) first last

/-- A text that declares a name, in a style that binds it, is seen to bind it, if the engine takes
the patterns of the style. -/
theorem isDeclared_of_declares [Engine] {name before after body : Text} {style : Style}
    (named : isName name = true) (binds : style.binds name = true)
    (taken : ∀ pattern ∈ style.patterns name, Engine.takes pattern = true)
    (declares : Declares name before after style body) :
    isDeclared (before ++ body ++ after) name = true := by
  cases declares with
  | functionHead starts blank listed blank' blank'' =>
    exact isDeclared_functionHead (taken _ (.head _)) starts blank listed blank' blank''
  | functionValue starts listed present blank blank' blank'' async bound =>
    exact isDeclared_functionValue (taken _ (.head _)) starts listed present blank blank' blank''
      async bound
  | classHead starts present blank ends =>
    exact isDeclared_classHead named (taken _ (.head _)) (by simpa [Style.binds] using binds) starts
      present blank ends
  | importList starts present parted present' parted' oneLine ends =>
    exact isDeclared_importList named (taken _ (.head _)) (by simpa [Style.binds] using binds)
      starts present parted present' parted' oneLine ends
  | destructuring starts listed blank parted parted' flat blank' =>
    exact isDeclared_destructuring (taken _ (.head _)) named (by simpa [Style.binds] using binds)
      starts listed blank parted parted' flat blank'
  | listed first last isParameter flat blank arrows =>
    exact isDeclared_listed named
      ⟨taken _ (.tail _ (.head _)), taken _ (.tail _ (.tail _ (.head _)))⟩ first last isParameter
      flat blank arrows
  | bare starts blank => exact isDeclared_bare (taken _ (.head _)) starts blank

end Call

end ScriptCheck
