import ScriptCheck.Proofs.Boundaries
import ScriptCheck.Proofs.WholeWords
import ScriptCheck.Rule.Return

/-!
# Words in the code of a text

The code of a function's body is put together from the regions of the body, cut to it. A
word is found there exactly when it stands by itself in the text, in code and between the
ends of the body. That the word is delimited in the text follows from its being delimited
in its region: what stands between two regions of code ends in a mark that is no part of
a word.
-/

namespace ScriptCheck

namespace Text

/-! ### Words kept apart -/

variable {word : Text}

/-- A part of a text that lacks some character stands on one side of it: in front of the place where
the character is, or behind it. -/
theorem append_cons_eq_append_iff {front back left right : Text} {c : Char} (unbroken : c ∉ word) :
    front ++ c :: back = left ++ word ++ right ↔
      (∃ more, front = left ++ word ++ more ∧ right = more ++ c :: back) ∨
        ∃ gap, left = front ++ c :: gap ∧ back = gap ++ word ++ right := by
  constructor
  · intro whole
    rcases List.append_eq_append_iff.mp whole with ⟨more, split, rest⟩ | ⟨more, split, rest⟩
    · cases more with
      | nil => exact .inl ⟨[], by simpa using split.symm, by simpa using rest.symm⟩
      | cons d more =>
        obtain ⟨rfl, rfl⟩ : c = d ∧ back = more ++ right := by simpa using rest
        right
        rcases List.append_eq_append_iff.mp split with ⟨gap, -, rest'⟩ | ⟨gap, split', rest'⟩
        · exact absurd (by simp [rest']) unbroken
        · cases gap with
          | nil =>
            have broken : c ∈ word := by rw [← List.nil_append word, ← rest']; simp
            exact absurd broken unbroken
          | cons d gap =>
            obtain ⟨rfl, rfl⟩ : c = d ∧ more = gap ++ word := by simpa using rest'
            exact ⟨gap, split', rfl⟩
    · exact .inl ⟨more, split, rest⟩
  · rintro (⟨more, rfl, rfl⟩ | ⟨gap, rfl, rfl⟩)
    · simp
    · simp

/-- A character that is no part of a word keeps words apart, so that a word of the whole text is a
word of one of the two sides. -/
theorem containsWord_append_cons (present : word ≠ []) {c : Char} (unbroken : c ∉ word)
    (apart : delimits (some c) = true) (front back : Text) :
    containsWord (front ++ c :: back) word =
      (front.containsWord word || back.containsWord word) := by
  have last (left : Text) : delimits (front ++ c :: left).getLast? = delimits left.getLast? := by
    rw [List.getLast?_append, List.getLast?_cons]
    cases left.getLast? with
    | none => exact apart
    | some d => rfl
  have first (more : Text) : delimits (more ++ c :: back).head? = delimits more.head? := by
    cases more with
    | nil => exact apart
    | cons d more => rfl
  rw [Bool.eq_iff_iff, Bool.or_eq_true, containsWord_iff present, containsWord_iff present,
    containsWord_iff present]
  constructor
  · rintro ⟨left, right, whole, before, behind⟩
    rcases (append_cons_eq_append_iff unbroken).mp whole with ⟨more, split, rfl⟩ | ⟨gap, rfl, split⟩
    · exact .inl ⟨left, more, split, before, by rwa [first] at behind⟩
    · exact .inr ⟨gap, right, split, by rwa [last] at before, behind⟩
  · rintro (⟨left, right, rfl, before, behind⟩ | ⟨left, right, rfl, before, behind⟩)
    · exact ⟨left, right ++ c :: back, by simp, before, by rwa [first]⟩
    · exact ⟨front ++ c :: left, right, by simp, by rwa [last], behind⟩

end Text

/-- A word is found in the code of some regions when it is found in that of one of them. -/
theorem Return.containsWord_codeOf {text word code : Text} {regions : List Region}
    (present : word ≠ []) (unbroken : ' ' ∉ word) (gathered : codeOf text regions = some code) :
    code.containsWord word = true ↔ ∃ region ∈ regions, region.kind = .code ∧
      ∃ piece, text.slice? region.start region.stop = some piece ∧
        piece.containsWord word = true := by
  have nothing : Text.containsWord [] word = false := by
    have split := mt (Text.containsWord_iff present []).mp (by simp [present])
    simpa using split
  induction regions generalizing code with
  | nil =>
    obtain rfl := Option.some.inj gathered
    simp [nothing]
  | cons region rest ih =>
    obtain ⟨first, cut, others, further, rfl⟩ : ∃ first,
        (if region.kind = .code then text.slice? region.start region.stop else some []) =
          some first ∧
        ∃ others, codeOf text rest = some others ∧ first ++ ' ' :: others = code := by
      by_cases kind : region.kind = .code <;>
        simpa [codeOf, kind, Option.bind_eq_some_iff] using gathered
    rw [Text.containsWord_append_cons present unbroken rfl, Bool.or_eq_true]
    simp only [List.mem_cons, or_and_right, exists_or, exists_eq_left]
    refine or_congr ?_ (ih further)
    by_cases kind : region.kind = .code
    · rw [if_pos kind] at cut
      simp [kind, cut]
    · rw [if_neg kind] at cut
      obtain rfl := Option.some.inj cut
      simp [kind, nothing]

/-! ### Regions of a span -/

namespace Layout

variable {layout : Layout} {region : Region} {offset : Nat}

/-- The region found at an offset covers the offset. -/
theorem of_regionAt? (found : layout.regionAt? offset = some region) :
    region ∈ layout.regions ∧ region.start ≤ offset ∧ offset < region.stop := by
  obtain ⟨first, covers⟩ := Option.filter_eq_some_iff.mp found
  refine ⟨(List.dropWhile_sublist _).subset (List.mem_of_mem_head? first), ?_⟩
  simpa [Region.covers] using covers

/-- An offset is in code exactly if the region found there is code. -/
theorem inCode_iff : layout.inCode offset = true ↔
    ∃ region, layout.regionAt? offset = some region ∧ region.kind = .code := by
  simp [inCode, Option.any_eq_true]

/-- The region that covers an offset is the one found there. -/
theorem regionAt?_of_mem
    (ordered : layout.regions.Pairwise fun region later => region.stop ≤ later.start)
    (member : region ∈ layout.regions) (start : region.start ≤ offset)
    (stop : offset < region.stop) : layout.regionAt? offset = some region := by
  obtain ⟨regions, pairs, balance⟩ := layout
  induction regions with
  | nil => simp at member
  | cons first rest ih =>
    obtain ⟨later, ordered'⟩ := List.pairwise_cons.mp ordered
    rcases List.mem_cons.mp member with rfl | member
    · exact regionAt?_of_covers rfl start stop
    · rw [regionAt?_of_stop_le rfl (Nat.le_trans (later region member) start)]
      exact ih ordered' member

/-- Of ordered regions, all are kept that start in front of an offset, since no earlier region
starts behind a later one. -/
theorem mem_takeWhile_start {regions : List Region} {last : Nat}
    (ordered : regions.Pairwise fun region later => region.stop ≤ later.start)
    (inOrder : ∀ region ∈ regions, region.start ≤ region.stop) (member : region ∈ regions)
    (ahead : region.start < last) :
    region ∈ regions.takeWhile fun region => region.start < last := by
  induction regions with
  | nil => simp at member
  | cons whole rest ih =>
    obtain ⟨later, ordered'⟩ := List.pairwise_cons.mp ordered
    have starts : whole.start < last := by
      rcases List.mem_cons.mp member with rfl | member
      · exact ahead
      · have reaches := inOrder whole (.head _)
        have behind := later region member
        omega
    rw [List.takeWhile_cons_of_pos (by simpa using starts)]
    rcases List.mem_cons.mp member with rfl | member
    · exact .head _
    · exact .tail _ (ih ordered'
        (fun region listed => inOrder region (.tail _ listed)) member)

/-- A region that reaches into a span is among those of the span, cut to it. -/
theorem mem_regionsWithin {first last : Nat}
    (ordered : layout.regions.Pairwise fun region later => region.stop ≤ later.start)
    (inOrder : ∀ region ∈ layout.regions, region.start ≤ region.stop)
    (member : region ∈ layout.regions) (behind : first < region.stop)
    (ahead : region.start < last) :
    { region with start := max region.start first, stop := min region.stop last } ∈
      layout.regionsWithin first last := by
  have after : region ∈ layout.regionsAfter first := by
    rw [← @List.takeWhile_append_dropWhile _ (fun region : Region => region.stop ≤ first)
      layout.regions, List.mem_append] at member
    rcases member with passed | after
    · have stops := List.all_eq_true.mp List.all_takeWhile region passed
      simp only [decide_eq_true_iff] at stops
      omega
    · exact after
  have sublist : (layout.regionsAfter first).Sublist layout.regions := List.dropWhile_sublist _
  exact List.mem_map.mpr ⟨region, mem_takeWhile_start (ordered.sublist sublist)
    (fun region listed => inOrder region (sublist.subset listed)) after ahead, rfl⟩

end Layout

/-- What opens is no code. -/
theorem Segment.kind_of_opening? {text : Text} {segment : Segment}
    (opened : opening? text = some segment) : segment.kind ≠ .code := by
  unfold opening? at opened
  split at opened
  · simp [← Option.some.inj opened]
  · simp [← Option.some.inj opened]
  · split at opened
    · rw [← Option.some.inj opened]
      dsimp only
      split <;> simp
    · simp at opened
  · simp at opened

/-- A segment of code ends with the text, or where a comment or literal opens. -/
theorem Laid.code_ends {segment : Segment} {others : List Segment} {rest : Text}
    (laid : Laid (segment.body ++ rest) (segment :: others)) (code : segment.kind = .code) :
    rest = [] ∨ (Segment.opening? rest).isSome := by
  generalize whole : segment.body ++ rest = text at laid
  generalize listed : segment :: others = segments at laid
  cases laid with
  | done => cases listed
  | opened opening further =>
    obtain ⟨rfl, -⟩ := List.cons.inj listed
    exact absurd code (Segment.kind_of_opening? opening)
  | code present plain ends further =>
    obtain ⟨rfl, -⟩ := List.cons.inj listed
    rwa [List.append_cancel_left whole]

/-! ### Characters of one word -/

/-- A part of an identifier is a plain character. -/
theorem isPlain_of_isIdentifierChar {c : Char} (part : isIdentifierChar c = true) :
    Mode.isPlain c = true := by
  have other (d : Char) (mark : isIdentifierChar d = false) : c ≠ d := by
    rintro rfl
    rw [part] at mark
    cases mark
  refine Mode.isPlain_iff.mpr ⟨?_, other '/' rfl, other '*' rfl, other '\n' rfl, other '\\' rfl⟩
  simp [isQuote, other '\x22' rfl, other '\x27' rfl, other backquote rfl]

/-- A plain character opens nothing. -/
theorem Segment.opening?_of_isPlain {c : Char} (plain : Mode.isPlain c = true) (rest : Text) :
    opening? (c :: rest) = none := by
  obtain ⟨notQuote, notSlash, -⟩ := Mode.isPlain_iff.mp plain
  unfold opening?
  split <;> simp_all

namespace Text

/-- A neighbour that is not plain keeps words apart. -/
theorem delimits_of_isPlain {neighbour : Option Char}
    (marks : ∀ c ∈ neighbour, Mode.isPlain c = false) : delimits neighbour = true := by
  cases neighbour with
  | none => rfl
  | some c =>
    have mark : ¬Mode.isPlain c = true := Bool.eq_false_iff.mp (marks c rfl)
    simpa [delimits] using mt isPlain_of_isIdentifierChar mark

/-- Code lies within the text. -/
theorem lt_width_of_inCode {text : Text} {offset : Nat}
    (inCode : text.layout.inCode offset = true) : offset < text.width := by
  obtain ⟨region, found, -⟩ := Layout.inCode_iff.mp inCode
  obtain ⟨member, -, stop⟩ := Layout.of_regionAt? found
  obtain ⟨-, front, rest, whole, stands⟩ := boundary_of_mem member
  rw [whole, width_append]
  omega

/-- A region has the characters that start in it to the last byte. -/
theorem le_stop_of_regionAt? {left right : Text} {c : Char} {region : Region}
    (found : (left ++ c :: right).layout.regionAt? left.width = some region) :
    left.width + c.utf8Size ≤ region.stop := by
  obtain ⟨above, front, back, rest, segment, others, rfl, rfl, body, -, -, found'⟩ :=
    exists_region left right c c.utf8Size_pos
  obtain rfl := Option.some.inj (found.symm.trans found')
  simp only [body, width_append, width_cons]
  omega

/-- Behind a character of code, a plain one belongs to the same region: a new region starts only
where something opens. -/
theorem regionAt?_next {left right : Text} {c d : Char} (plain : Mode.isPlain d = true)
    (inCode : (left ++ c :: d :: right).layout.inCode left.width = true) :
    (left ++ c :: d :: right).layout.regionAt? (left ++ [c]).width =
      (left ++ c :: d :: right).layout.regionAt? left.width := by
  obtain ⟨above, front, back, rest, segment, others, rfl, split, body, laid, -, found⟩ :=
    exists_region left (d :: right) c c.utf8Size_pos
  rw [Nat.add_zero] at found
  have code : segment.kind = .code := by
    obtain ⟨region, found', code⟩ := Layout.inCode_iff.mp inCode
    obtain rfl := Option.some.inj (found.symm.trans found')
    exact code
  obtain ⟨back, rfl⟩ : ∃ back', back = d :: back' := by
    cases back with
    | nil =>
      -- Code does not end in front of a plain character.
      have ends := laid.code_ends code
      rw [← List.nil_append rest, ← split, Segment.opening?_of_isPlain plain] at ends
      simp at ends
    | cons e back =>
      obtain ⟨rfl, -⟩ := List.cons.inj split
      exact ⟨back, rfl⟩
  obtain ⟨member, start, -⟩ := Layout.of_regionAt? found
  rw [found]
  refine Layout.regionAt?_of_mem (pairwise_regions _) member ?_ ?_
  · rw [width_append (above ++ front)]
    exact Nat.le_trans start (Nat.le_add_right _ _)
  · have positive : 0 < d.utf8Size := d.utf8Size_pos
    simp only [body, width_append, width_cons, width_nil]
    omega

/-- A plain character behind another is in code if that one is. -/
theorem inCode_next {left right : Text} {c d : Char} (plain : Mode.isPlain c = true)
    (plain' : Mode.isPlain d = true) :
    (left ++ c :: d :: right).layout.inCode (left ++ [c]).width =
      (left ++ c :: d :: right).layout.inCode left.width := by
  have split : left ++ c :: d :: right = (left ++ [c]) ++ d :: right := by simp
  rw [inCode_layout, Mode.showsCode_of_isPlain plain, split, inCode_layout,
    Mode.showsCode_of_isPlain plain', Mode.after_append]
  exact Mode.inCode_after (Mode.proper_code_after left) (by simpa using plain)

/-- Between two plain characters no region of code starts. -/
theorem start_lt_of_regionAt? {left right : Text} {c d : Char} {region : Region}
    (plain : Mode.isPlain c = true) (plain' : Mode.isPlain d = true)
    (found : (left ++ c :: d :: right).layout.regionAt? (left ++ [c]).width = some region)
    (code : region.kind = .code) : region.start < (left ++ [c]).width := by
  have inCode : (left ++ c :: d :: right).layout.inCode (left ++ [c]).width = true :=
    Layout.inCode_iff.mpr ⟨region, found, code⟩
  rw [inCode_next plain plain'] at inCode
  rw [regionAt?_next plain' inCode] at found
  obtain ⟨-, start, -⟩ := Layout.of_regionAt? found
  have positive : 0 < c.utf8Size := c.utf8Size_pos
  rw [width_append, width_cons]
  omega

/-- Nor does one stop there. -/
theorem lt_stop_of_regionAt? {left right : Text} {c d : Char} {region : Region}
    (plain : Mode.isPlain d = true)
    (found : (left ++ c :: d :: right).layout.regionAt? left.width = some region)
    (code : region.kind = .code) : (left ++ [c]).width < region.stop := by
  have inCode : (left ++ c :: d :: right).layout.inCode left.width = true :=
    Layout.inCode_iff.mpr ⟨region, found, code⟩
  rw [← regionAt?_next plain inCode] at found
  exact (Layout.of_regionAt? found).2.2

/-- In front of a region of code that starts with a plain character there is none. -/
theorem isPlain_before {text left right : Text} {region : Region} {d : Char}
    (whole : text = left ++ d :: right) (plain : Mode.isPlain d = true)
    (found : text.layout.regionAt? left.width = some region) (code : region.kind = .code)
    (starts : region.start = left.width) : ∀ c ∈ left.getLast?, Mode.isPlain c = false := by
  intro c last
  obtain ⟨front, rfl⟩ := List.getLast?_eq_some_iff.mp last
  rw [Bool.eq_false_iff]
  intro plain'
  have split : text = front ++ c :: d :: right := by simp [whole]
  rw [split] at found
  have ahead := start_lt_of_regionAt? plain' plain found code
  omega

/-- Behind a region of code there is no plain character. -/
theorem isPlain_behind {text left right : Text} {region : Region} {c : Char}
    (whole : text = left ++ c :: right)
    (found : text.layout.regionAt? left.width = some region) (code : region.kind = .code)
    (stops : region.stop = (left ++ [c]).width) : ∀ d ∈ right.head?, Mode.isPlain d = false := by
  intro d first
  obtain ⟨rest, rfl⟩ := List.head?_eq_some_iff.mp first
  rw [Bool.eq_false_iff]
  intro plain
  rw [whole] at found
  have behind := lt_stop_of_regionAt? plain found code
  omega

/-- Plain characters in code belong to one region, from the first of them to the last. The induction
takes one character after the other. -/
theorem regionAt?_of_plain {left front back right : Text} {c : Char}
    (plain : ∀ d ∈ front ++ [c], Mode.isPlain d = true)
    (inCode : (left ++ (front ++ c :: back) ++ right).layout.inCode left.width = true) :
    (left ++ (front ++ c :: back) ++ right).layout.regionAt? (left ++ front).width =
      (left ++ (front ++ c :: back) ++ right).layout.regionAt? left.width := by
  induction front generalizing left with
  | nil => simp
  | cons d front ih =>
    obtain ⟨e, others, next, plain'⟩ : ∃ e others, front ++ c :: back = e :: others ∧
        Mode.isPlain e = true := by
      cases front with
      | nil => exact ⟨c, back, rfl, plain c (by simp)⟩
      | cons e front => exact ⟨e, front ++ c :: back, rfl, plain e (by simp)⟩
    have split : left ++ (d :: front ++ c :: back) ++ right =
        left ++ d :: e :: (others ++ right) := by simp [next]
    have split' : left ++ (d :: front ++ c :: back) ++ right =
        (left ++ [d]) ++ (front ++ c :: back) ++ right := by simp
    have same := regionAt?_next plain' (by rwa [split] at inCode)
    rw [← split] at same
    have inCode' : (left ++ (d :: front ++ c :: back) ++ right).layout.inCode
        (left ++ [d]).width = true := by
      rwa [Layout.inCode, same]
    rw [split'] at inCode' same ⊢
    have further := ih (fun e listed => plain e (by simp_all)) inCode'
    have stands : left ++ d :: front = left ++ [d] ++ front := by simp
    rw [stands, further, same]

/-- The region of the first of some plain characters in code reaches over the last one. -/
theorem width_le_stop_of_plain {text left word right : Text} {region : Region}
    (whole : text = left ++ word ++ right) (present : word ≠ [])
    (plain : ∀ c ∈ word, Mode.isPlain c = true)
    (found : text.layout.regionAt? left.width = some region) (code : region.kind = .code) :
    (left ++ word).width ≤ region.stop := by
  obtain ⟨front, c, rfl⟩ := (List.eq_nil_or_concat word).resolve_left present
  rw [List.concat_eq_append] at *
  have inCode : text.layout.inCode left.width = true :=
    Layout.inCode_iff.mpr ⟨region, found, code⟩
  have same := @regionAt?_of_plain left front [] right c plain (by rwa [← whole])
  rw [← whole, found] at same
  have split : text = (left ++ front) ++ c :: right := by rw [whole]; simp
  rw [split] at same
  have reaches := le_stop_of_regionAt? same
  simpa [Nat.add_assoc] using reaches

/-- A word stands by itself in code, between two offsets. -/
def WordInCode (text word : Text) (start stop : Nat) : Prop :=
  ∃ left right, text = left ++ word ++ right ∧ start ≤ left.width ∧ (left ++ word).width ≤ stop ∧
    text.layout.inCode left.width = true ∧ delimits left.getLast? = true ∧
    delimits right.head? = true

variable {text word : Text} {start stop : Nat}

/-- A word found in the code of a region, cut to a span, stands by itself in the text. -/
theorem WordInCode.of_slice {region : Region} {piece : Text} (present : word ≠ [])
    (parts : ∀ c ∈ word, isIdentifierChar c = true)
    (opens : ∀ left right, text = left ++ right → left.width = start →
      delimits left.getLast? = true)
    (closes : ∀ left right, text = left ++ right → left.width = stop →
      delimits right.head? = true)
    (member : region ∈ text.regions) (code : region.kind = .code)
    (cut : text.slice? (max region.start start) (min region.stop stop) = some piece)
    (found : piece.containsWord word = true) : text.WordInCode word start stop := by
  obtain ⟨above, below, whole, above', below'⟩ := (slice?_eq_some_iff _ _ _ _).mp cut
  obtain ⟨left, right, rfl, before, behind⟩ := (containsWord_iff present piece).mp found
  have long : 0 < word.width := Nat.pos_of_ne_zero (mt (width_eq_zero_iff word).mp present)
  simp only [width_append] at below'
  have whole' : text = (above ++ left) ++ word ++ (right ++ below) := by rw [whole]; simp
  have here : text.layout.regionAt? (above ++ left).width = some region := by
    refine Layout.regionAt?_of_mem text.pairwise_regions member ?_ ?_ <;>
      rw [width_append] <;> omega
  have inCode : text.layout.inCode (above ++ left).width = true :=
    Layout.inCode_iff.mpr ⟨region, here, code⟩
  refine ⟨above ++ left, right ++ below, whole', by rw [width_append]; omega,
    by simp only [width_append]; omega, inCode, ?_, ?_⟩
  · rw [List.getLast?_append]
    cases last : left.getLast? with
    | some c => rwa [last] at before
    | none =>
      obtain rfl := List.getLast?_eq_none_iff.mp last
      show delimits above.getLast? = true
      by_cases starts : above.width = start
      · exact opens above _ (by simpa using whole') starts
      · obtain ⟨d, word, rfl⟩ := List.exists_cons_of_ne_nil present
        have split : text = above ++ d :: (word ++ right ++ below) := by simp [whole]
        rw [List.append_nil] at here
        exact delimits_of_isPlain (isPlain_before split
          (isPlain_of_isIdentifierChar (parts d (by simp))) here code (by omega))
  · cases right with
    | cons c right => exact behind
    | nil =>
      obtain ⟨front, c, rfl⟩ := (List.eq_nil_or_concat word).resolve_left present
      rw [List.concat_eq_append] at *
      have split : text = (above ++ left ++ front) ++ c :: below := by simp [whole]
      have positive : 0 < c.utf8Size := c.utf8Size_pos
      simp only [width_append, width_cons, width_nil] at below' long
      by_cases stops : min region.stop stop = stop
      · refine closes (above ++ left ++ front ++ [c]) below (by simp [split]) ?_
        simp only [width_append, width_cons, width_nil]
        omega
      · have last : text.layout.regionAt? (above ++ left ++ front).width = some region := by
          refine Layout.regionAt?_of_mem text.pairwise_regions member ?_ ?_ <;>
            simp only [width_append] <;> omega
        have stops' : region.stop = (above ++ left ++ front ++ [c]).width := by
          simp only [width_append, width_cons, width_nil]
          omega
        exact delimits_of_isPlain (isPlain_behind split last code stops')

/-- A word that stands by itself in the code of a span is found in the code of a region, cut to
the span. -/
theorem WordInCode.exists_slice (present : word ≠ [])
    (parts : ∀ c ∈ word, isIdentifierChar c = true) (first : text.Boundary start)
    (last : text.Boundary stop) (ordered : start ≤ stop)
    (stands : text.WordInCode word start stop) :
    ∃ region ∈ text.layout.regionsWithin start stop, region.kind = .code ∧
      ∃ piece, text.slice? region.start region.stop = some piece ∧
        piece.containsWord word = true := by
  obtain ⟨left, right, whole, ahead, behind, inCode, before, after⟩ := stands
  obtain ⟨region, found, code⟩ := Layout.inCode_iff.mp inCode
  obtain ⟨member, starts, -⟩ := Layout.of_regionAt? found
  have stops : (left ++ word).width ≤ region.stop := width_le_stop_of_plain whole present
    (fun c listed => isPlain_of_isIdentifierChar (parts c listed)) found code
  have long : 0 < word.width := Nat.pos_of_ne_zero (mt (width_eq_zero_iff word).mp present)
  rw [width_append] at behind stops
  have within := @Layout.mem_regionsWithin text.layout region start stop text.pairwise_regions
    (fun region listed => start_le_stop listed) member (by omega) (by omega)
  obtain ⟨piece, cut⟩ := exists_slice?_of_regionsWithin first last ordered within
  refine ⟨_, within, code, piece, cut, (containsWord_iff present piece).mpr ?_⟩
  obtain ⟨above, below, whole', above', below'⟩ := (slice?_eq_some_iff _ _ _ _).mp cut
  dsimp only at above' below'
  obtain ⟨gap, rfl, rest⟩ := exists_gap_of_width_le
    (show above ++ (piece ++ below) = left ++ (word ++ right) by
      rw [← List.append_assoc, ← whole', whole, List.append_assoc]) (by omega)
  rw [width_append] at behind stops
  obtain ⟨gap', rfl, rest'⟩ := exists_gap_of_width_le
    (show (gap ++ word) ++ right = piece ++ below by rw [rest, List.append_assoc])
    (by rw [width_append]; omega)
  refine ⟨gap, gap', by simp, ?_, ?_⟩
  · cases last : gap.getLast? with
    | none => rfl
    | some c => rwa [List.getLast?_append, last] at before
  · cases gap' with
    | nil => rfl
    | cons c gap' =>
      rw [rest'] at after
      exact after

/-- The code of a span has a word exactly when the word stands by itself in code there. -/
theorem containsWord_codeOf_regionsWithin {code : Text} (present : word ≠ [])
    (parts : ∀ c ∈ word, isIdentifierChar c = true) (first : text.Boundary start)
    (last : text.Boundary stop) (ordered : start ≤ stop)
    (opens : ∀ left right, text = left ++ right → left.width = start →
      delimits left.getLast? = true)
    (closes : ∀ left right, text = left ++ right → left.width = stop →
      delimits right.head? = true)
    (gathered : Return.codeOf text (text.layout.regionsWithin start stop) = some code) :
    code.containsWord word = true ↔ text.WordInCode word start stop := by
  have unbroken : ' ' ∉ word := fun listed => by cases parts ' ' listed
  rw [Return.containsWord_codeOf present unbroken gathered]
  constructor
  · rintro ⟨region, listed, kind, piece, cut, found⟩
    obtain ⟨whole, taken, rfl⟩ := List.mem_map.mp listed
    have member : whole ∈ text.regions :=
      (List.dropWhile_sublist _).subset ((List.takeWhile_sublist _).subset taken)
    exact .of_slice present parts opens closes member kind cut found
  · exact WordInCode.exists_slice present parts first last ordered

end Text

end ScriptCheck
