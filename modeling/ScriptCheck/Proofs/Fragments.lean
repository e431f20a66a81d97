import ScriptCheck.Proofs.RegionQueries
import ScriptCheck.Proofs.ShownLines

/-!
# Reading a part of a text for itself

A stretch of text is often cut out and read as if it stood alone: a call up to the end of its
line, or the body of a condition. From a place in code on, what is read is what the text has
there. Nothing in front of the place matters, since code carries nothing along but where it
began. At the end of a line what is open is cut off. A comment stays a comment, but a literal
that goes on behind the line has no end in the part and counts as unterminated.

Both are shown for the segments of the text: dropping the front of a stretch of code leaves a
text laid out by the segments that are left, and the first line is laid out by what each segment
has on it.
-/

namespace ScriptCheck

namespace Text

/-- What follows a newline is not on the first line. -/
theorem firstLine_append_of_mem {front : Text} (broken : '\n' ∈ front) (rest : Text) :
    firstLine (front ++ rest) = firstLine front := by
  induction front with
  | nil => simp at broken
  | cons c front ih =>
    by_cases newline : c = '\n'
    · subst newline
      rfl
    · have later : '\n' ∈ front := by simpa [Ne.symm newline] using broken
      rw [List.cons_append, firstLine_cons newline, firstLine_cons newline,
        ih later]

/-- A line starts as its text does. -/
theorem exists_of_firstLine_eq_cons {text line : Text} {c : Char}
    (starts : text.firstLine = c :: line) : ∃ rest, text = c :: rest := by
  obtain ⟨below, split⟩ : text.firstLine <+: text := List.takeWhile_prefix _
  exact ⟨line ++ below, by rw [← split, starts, List.cons_append]⟩

/-- The first line has no newline. -/
theorem newline_not_mem_firstLine (text : Text) : '\n' ∉ text.firstLine := by
  obtain ⟨_, _, oneLine, _⟩ := Line.exists_below text
  exact fun listed => oneLine '\n' listed rfl

/-- The first line of a text with a newline is narrower than the text. -/
theorem width_firstLine_lt {text : Text} (broken : '\n' ∈ text) :
    text.firstLine.width < text.width := by
  obtain ⟨below, split⟩ : text.firstLine <+: text := List.takeWhile_prefix _
  have wide : width below ≠ 0 := by
    rw [Ne, width_eq_zero_iff]
    rintro rfl
    rw [List.append_nil] at split
    rw [← split] at broken
    exact newline_not_mem_firstLine text broken
  have total := congrArg width split
  rw [width_append] at total
  omega

end Text

open Text

namespace Segment

/-- What a segment has on its first line. A literal that goes on behind it is not closed there. -/
def firstLine (segment : Segment) : Segment :=
  ⟨if segment.kind = .literal ∧ '\n' ∈ segment.body then .unterminated else segment.kind,
    segment.body.firstLine⟩

/-- A segment without newlines is all on its first line. -/
theorem firstLine_of_newline_not_mem {segment : Segment} (oneLine : '\n' ∉ segment.body) :
    segment.firstLine = segment := by
  have whole : segment.body.firstLine = segment.body := by
    apply firstLine_of_oneLine
    rintro c listed rfl
    exact oneLine listed
  simp [firstLine, oneLine, whole]

/-! ### What opens on a line -/

/-- A block comment takes of the line what it takes of the text, up to the end of the line. The
closing mark has no newline. -/
theorem throughCommentEnd_firstLine (text : Text) :
    throughCommentEnd text.firstLine = (throughCommentEnd text).firstLine := by
  fun_induction throughCommentEnd text with
  | case1 rest => rfl
  | case2 c rest notEnd ih =>
    by_cases newline : c = '\n'
    · subst newline
      rfl
    · have notEnd' : ∀ tail, c = '*' → Text.firstLine rest = '/' :: tail → False := by
        intro tail star slash
        obtain ⟨rest', slash⟩ := exists_of_firstLine_eq_cons slash
        exact notEnd rest' star slash
      rw [firstLine_cons newline, firstLine_cons newline, ← ih,
        throughCommentEnd.eq_2 c _ notEnd']
  | case3 => rfl

/-- A literal by its next character, if that is no backslash. -/
theorem literalTail_cons {quote c : Char} (plain : c ≠ '\\') (rest : Text) :
    literalTail quote (c :: rest) =
      if c = quote then ([c], true)
      else if c = '\n' ∧ quote ≠ backquote then ([], false)
      else (c :: (literalTail quote rest).1, (literalTail quote rest).2) := by
  rw [literalTail]
  · exact fun same => absurd same plain
  · exact fun _ _ same => absurd same plain

/-- A literal takes of the line what it takes of the text, and is closed on it if it stops
there. -/
theorem literalTail_firstLine {quote : Char} (mark : isQuote quote = true) (text : Text) :
    literalTail quote text.firstLine =
      ((literalTail quote text).1.firstLine,
        (literalTail quote text).2 && decide ('\n' ∉ (literalTail quote text).1)) := by
  have notNewline : quote ≠ '\n' := isQuote_ne mark rfl
  have notBackslash : quote ≠ '\\' := isQuote_ne mark rfl
  fun_induction literalTail quote text with
  | case1 => rfl
  | case2 => rfl
  | case3 c rest tail closed inner ih =>
    have backslash : '\\' ≠ '\n' := by decide
    by_cases newline : c = '\n'
    · subst newline
      simp [firstLine_cons backslash, firstLine_newline, literalTail]
    · rw [inner] at ih
      simp [firstLine_cons backslash, firstLine_cons newline, literalTail, ih,
        Ne.symm newline]
  | case4 rest notLone notEscape =>
    rw [firstLine_cons notNewline, literalTail_cons notBackslash, if_pos rfl,
      firstLine_cons notNewline]
    simp [Ne.symm notNewline, Text.firstLine]
  | case5 c rest notLone notEscape notQuote newline =>
    rw [newline.1]
    rfl
  | case6 c rest notLone notEscape notQuote notEnd tail closed inner ih =>
    have plain : c ≠ '\\' := by
      rintro rfl
      cases rest with
      | nil => exact notLone rfl rfl
      | cons d rest => exact notEscape d rest rfl rfl
    by_cases newline : c = '\n'
    · subst newline
      simp [firstLine_newline, literalTail]
    · rw [inner] at ih
      rw [firstLine_cons newline, literalTail_cons plain, if_neg notQuote, if_neg notEnd,
        ih]
      simp [firstLine_cons newline, Ne.symm newline]

/-- On a line opens what opens in the text, with what it has on the line. -/
theorem opening?_firstLine (text : Text) :
    opening? text.firstLine = (opening? text).map firstLine := by
  have slash : '/' ≠ '\n' := by decide
  have star : '*' ≠ '\n' := by decide
  fun_cases opening? text with
  | case1 rest =>
    have oneLine : '\n' ∉ '/' :: '/' :: Text.firstLine rest := by
      simpa using newline_not_mem_firstLine rest
    have part : firstLine ⟨.comment, '/' :: '/' :: Text.firstLine rest⟩ =
        ⟨.comment, '/' :: '/' :: Text.firstLine rest⟩ := firstLine_of_newline_not_mem oneLine
    have whole : Text.firstLine (Text.firstLine rest) = Text.firstLine rest :=
      firstLine_of_oneLine fun c listed =>
        ne_of_mem_of_not_mem listed (newline_not_mem_firstLine rest)
    rw [firstLine_cons slash, firstLine_cons slash]
    show some (⟨.comment, '/' :: '/' :: Text.firstLine (Text.firstLine rest)⟩ : Segment) =
      some (firstLine ⟨.comment, '/' :: '/' :: Text.firstLine rest⟩)
    rw [whole, part]
  | case2 rest =>
    have part : firstLine ⟨.comment, '/' :: '*' :: throughCommentEnd rest⟩ =
        ⟨.comment, '/' :: '*' :: throughCommentEnd (Text.firstLine rest)⟩ := by
      simp [firstLine, firstLine_cons slash, firstLine_cons star, throughCommentEnd_firstLine]
    rw [Option.map_some, firstLine_cons slash, firstLine_cons star, part]
    rfl
  | case3 c rest notLine notBlock mark tail closed inner =>
    have notNewline : c ≠ '\n' := isQuote_ne mark rfl
    have tail' := literalTail_firstLine mark rest
    rw [inner] at tail'
    rw [Option.map_some, firstLine_cons notNewline, opening?_of_ne (isQuote_ne mark rfl),
      if_pos mark, tail']
    cases closed <;> simp [firstLine, firstLine_cons notNewline, Ne.symm notNewline]
  | case4 c rest notLine notBlock mark =>
    by_cases newline : c = '\n'
    · subst newline
      rfl
    · rw [firstLine_cons newline, opening?, if_neg mark]
      · rfl
      · intro tail isSlash next
        obtain ⟨rest', next⟩ := exists_of_firstLine_eq_cons next
        exact notLine rest' isSlash next
      · intro tail isSlash next
        obtain ⟨rest', next⟩ := exists_of_firstLine_eq_cons next
        exact notBlock rest' isSlash next
  | case5 => rfl

/-- The segments of the first line. -/
def lineOf : List Segment → List Segment
  | [] => []
  | segment :: others =>
    if '\n' ∈ segment.body then
      if segment.body.firstLine = [] then [] else [segment.firstLine]
    else
      segment :: lineOf others

end Segment

namespace Laid

variable {text : Text} {segments : List Segment}

/-- Every segment has a character. -/
theorem present (laid : Laid text segments) : ∀ segment ∈ segments, segment.body ≠ [] := by
  induction laid with
  | done => simp
  | opened opening further ih =>
    obtain ⟨_, _, passes⟩ := Mode.passes_of_opening? opening (.code _)
    exact List.forall_mem_cons.mpr ⟨passes.present, ih⟩
  | code present plain ends further ih =>
    exact List.forall_mem_cons.mpr ⟨present, ih⟩

/-- However the segments were found, they are where the regions are. -/
theorem regions_eq (laid : Laid text segments) : text.regions = Segment.placeFrom 0 segments := by
  have found := laid.regionsFrom?_eq []
  have found' := text.laid_segments.regionsFrom?_eq []
  exact Option.some.inj (found'.symm.trans found)

/-- Nothing opens on the first line of a stretch of code that goes on behind it. -/
theorem opening?_of_broken_code {body rest front back : Text} {c : Char} (broken : '\n' ∈ body)
    (plain : ∀ front c back, body = front ++ c :: back →
      Segment.opening? (c :: (back ++ rest)) = none)
    (parts : body.firstLine = front ++ c :: back) : Segment.opening? (c :: back) = none := by
  obtain ⟨below, split, oneLine, ended⟩ := Line.exists_below body
  rw [show Line.lineOf body = front ++ c :: back from parts] at split oneLine
  obtain ⟨absent, unbroken⟩ := List.forall_mem_append.mp oneLine
  have later : '\n' ∈ c :: back ++ below := by
    rw [split, List.append_assoc] at broken
    exact (List.mem_append.mp broken).resolve_left fun listed => absent _ listed rfl
  have cut : Text.firstLine (c :: back ++ below ++ rest) = c :: back := by
    rw [firstLine_append_of_mem later, firstLine_eq unbroken ended]
  rw [← cut, Segment.opening?_firstLine]
  exact congrArg _ (plain front c (back ++ below) (by rw [split, List.append_assoc]; rfl))

/-- The first line of a text is laid out by what the segments have on it. -/
theorem firstLine (laid : Laid text segments) :
    Laid text.firstLine (Segment.lineOf segments) := by
  induction laid with
  | done => exact .done
  | @opened segment rest others opening further ih =>
    have opening' := Segment.opening?_firstLine (segment.body ++ rest)
    rw [opening, Option.map_some] at opening'
    by_cases broken : '\n' ∈ segment.body
    · rw [firstLine_append_of_mem broken] at opening' ⊢
      have starts : segment.body.firstLine ≠ [] := by
        intro empty
        rw [empty] at opening'
        cases opening'
      rw [Segment.lineOf, if_pos broken, if_neg starts]
      have cut : Laid (segment.firstLine.body ++ []) [segment.firstLine] :=
        .opened (by rwa [List.append_nil]) .done
      rwa [List.append_nil] at cut
    · have oneLine : ∀ c ∈ segment.body, c ≠ '\n' := fun c listed =>
        ne_of_mem_of_not_mem listed broken
      rw [firstLine_append _ _ oneLine] at opening' ⊢
      rw [Segment.firstLine_of_newline_not_mem broken] at opening'
      rw [Segment.lineOf, if_neg broken]
      exact .opened opening' ih
  | @code body rest others present plain ends further ih =>
    by_cases broken : '\n' ∈ body
    · rw [firstLine_append_of_mem broken, Segment.lineOf, if_pos broken]
      by_cases starts : Text.firstLine body = []
      · rw [if_pos starts, starts]
        exact .done
      · rw [if_neg starts]
        have line : Laid (Text.firstLine body ++ []) [⟨.code, Text.firstLine body⟩] := by
          refine .code starts ?_ (.inl rfl) .done
          intro front c back parts
          rw [List.append_nil]
          exact opening?_of_broken_code broken plain parts
        rwa [List.append_nil] at line
    · have oneLine : ∀ c ∈ body, c ≠ '\n' := fun c listed =>
        ne_of_mem_of_not_mem listed broken
      rw [firstLine_append _ _ oneLine, Segment.lineOf, if_neg broken]
      refine .code present ?_ ?_ ih
      · intro front c back split
        have line : Text.firstLine (c :: back ++ rest) = c :: back ++ rest.firstLine := by
          apply firstLine_append
          intro d listed
          exact oneLine d (by simp [split, listed])
        rw [← List.cons_append, ← line, Segment.opening?_firstLine]
        exact congrArg _ (plain front c back split)
      · rcases ends with rfl | opens
        · exact .inl rfl
        · rw [Segment.opening?_firstLine, Option.isSome_map]
          exact .inr opens

/-- Without its front a stretch of code is still one, in front of the same segments. -/
theorem restart {front back rest : Text}
    (laid : Laid (front ++ back ++ rest) (⟨.code, front ++ back⟩ :: segments))
    (present : back ≠ []) : Laid (back ++ rest) (⟨.code, back⟩ :: segments) := by
  generalize whole : front ++ back ++ rest = text at laid
  generalize listed : ⟨.code, front ++ back⟩ :: segments = all at laid
  cases laid with
  | done => cases listed
  | opened opening further =>
    obtain ⟨rfl, -⟩ := List.cons.inj listed
    exact absurd rfl (Segment.kind_of_opening? opening)
  | code _ plain ends further =>
    obtain ⟨same, rfl⟩ := List.cons.inj listed
    cases same
    obtain rfl := List.append_cancel_left whole
    refine .code present ?_ ends further
    intro front' c back' split
    exact plain (front ++ front') c back' (by rw [split, List.append_assoc])

/-- A character of a text stands in one of the segments, with the segments in front of it and what
is left behind. -/
theorem exists_segment (laid : Laid text segments) {left right : Text} {c : Char}
    (whole : text = left ++ c :: right) :
    ∃ before segment others front back rest, segments = before ++ segment :: others ∧
      left = before.flatMap Segment.body ++ front ∧ segment.body = front ++ c :: back ∧
      right = back ++ rest ∧ Laid (segment.body ++ rest) (segment :: others) := by
  induction segments generalizing text left with
  | nil =>
    cases laid
    simp at whole
  | cons segment segments ih =>
    obtain ⟨rest, rfl, further, -⟩ := laid.first (.code _)
    rcases append_eq_append_cons whole with ⟨front, rfl, behind⟩ | ⟨back, body, rfl⟩
    · obtain ⟨before, found, others, front', back, rest', rfl, rfl, body, split, laid'⟩ :=
        ih further behind
      exact ⟨segment :: before, found, others, front', back, rest', rfl, by simp, body, split,
        laid'⟩
    · exact ⟨[], segment, segments, left, back, rest, rfl, rfl, body, rfl, laid⟩

end Laid

/-! ### Regions of a part -/

namespace Region

/-- The part of a region within a span that is read for itself. A literal that goes on behind the
span is not closed in it. -/
def cut? (region : Region) (start stop : Nat) : Option Region :=
  (region.within? start stop).map fun part =>
    { part with
      kind := if region.kind = .literal ∧ stop < region.stop then .unterminated else region.kind }

/-- A region, counted from an offset on. -/
def since (region : Region) (offset : Nat) : Region :=
  { region with start := region.start - offset, stop := region.stop - offset }

/-- A region outside of a span has no part in it. -/
theorem cut?_eq_none {region : Region} {start stop : Nat}
    (outside : region.stop ≤ start ∨ stop ≤ region.start) : region.cut? start stop = none := by
  rw [cut?, within?_eq_none outside]
  rfl

/-- A region inside of a span is its own part. -/
theorem within?_eq_self {region : Region} {start stop : Nat} (inOrder : region.start < region.stop)
    (behind : start ≤ region.start) (ahead : region.stop ≤ stop) :
    region.within? start stop = some region := by
  rw [within?, if_pos (by omega), Nat.max_eq_left behind, Nat.min_eq_left ahead]

/-- Where a region starts does not matter to a span within it. -/
theorem within?_of_start_le {region : Region} {start : Nat} (behind : region.start ≤ start)
    (stop : Nat) :
    region.within? start stop = { region with start := start }.within? start stop := by
  rw [within?, within?, Nat.max_eq_right behind, Nat.max_self]

/-- The same holds for the part that is read for itself. -/
theorem cut?_of_start_le {region : Region} {start : Nat} (behind : region.start ≤ start)
    (stop : Nat) : region.cut? start stop = { region with start := start }.cut? start stop := by
  rw [cut?, cut?, within?_of_start_le behind]

/-- A region inside of a span stays as it is. -/
theorem cut?_eq_self {region : Region} {start stop : Nat} (inOrder : region.start < region.stop)
    (behind : start ≤ region.start) (ahead : region.stop ≤ stop) :
    region.cut? start stop = some region := by
  rw [cut?, within?_eq_self inOrder behind ahead, Option.map_some,
    if_neg fun goesOn => Nat.not_lt.mpr ahead goesOn.2]

/-- A region that goes on behind a span is cut off there. -/
theorem cut?_of_beyond {region : Region} {start stop : Nat} (behind : start ≤ region.start)
    (reaches : region.start < stop) (beyond : stop < region.stop) :
    region.cut? start stop = some { region with
      stop := stop, kind := if region.kind = .literal then .unterminated else region.kind } := by
  have part : region.within? start stop = some { region with stop := stop } := by
    rw [within?, Nat.max_eq_left behind, Nat.min_eq_right (Nat.le_of_lt beyond), if_pos reaches]
  rw [cut?, part, Option.map_some]
  simp only [beyond, and_true]

end Region

/-- Between the ends of all regions nothing is cut off. -/
theorem Tiles.filterMap_within?_self {start finish : Nat} {regions : List Region}
    (tiles : Tiles start finish regions) :
    regions.filterMap (fun region => region.within? start finish) = regions := by
  have whole : ∀ region ∈ regions, region.within? start finish = some region := by
    intro region member
    obtain ⟨behind, ahead⟩ := tiles.bounds.2 region member
    exact Region.within?_eq_self (tiles.nonempty region member) behind ahead
  rw [List.filterMap_congr whole, List.filterMap_some]

namespace Segment

variable {segments : List Segment}

/-- Segments placed one behind the other tile their stretch. -/
theorem tiles_placeFrom (present : ∀ segment ∈ segments, segment.body ≠ []) (offset : Nat) :
    Tiles offset (offset + width (segments.flatMap body)) (placeFrom offset segments) := by
  induction segments generalizing offset with
  | nil => exact ⟨rfl, by simp [placeFrom]⟩
  | cons segment others ih =>
    obtain ⟨present, present'⟩ := List.forall_mem_cons.mp present
    have wide : segment.body.width ≠ 0 := mt (width_eq_zero_iff _).mp present
    have further := ih present' (offset + segment.body.width)
    rw [List.flatMap_cons, width_append, ← Nat.add_assoc]
    exact Tiles.cons_iff.mpr ⟨rfl, show offset < offset + segment.body.width by omega, further⟩

/-- Segments are placed part by part. -/
theorem placeFrom_append (offset : Nat) (before others : List Segment) :
    placeFrom offset (before ++ others) =
      placeFrom offset before ++ placeFrom (offset + width (before.flatMap body)) others := by
  induction before generalizing offset with
  | nil => rfl
  | cons segment before ih =>
    rw [List.cons_append, placeFrom, placeFrom, ih, List.flatMap_cons,
      width_append, Nat.add_assoc]
    rfl

/-- Counting from an offset undoes the placing behind it. -/
theorem map_since_placeFrom (offset start : Nat) (segments : List Segment) :
    (placeFrom (offset + start) segments).map (·.since offset) = placeFrom start segments := by
  induction segments generalizing start with
  | nil => rfl
  | cons segment others ih =>
    rw [placeFrom, List.map_cons, Nat.add_assoc, ih, placeFrom]
    simp [Region.since]

/-- What the regions have on the first line are the regions of what the segments have on it. -/
theorem filterMap_cut?_placeFrom (present : ∀ segment ∈ segments, segment.body ≠ [])
    {start offset : Nat} (behind : start ≤ offset) :
    (placeFrom offset segments).filterMap (fun region =>
        region.cut? start (offset + (Text.firstLine (segments.flatMap body)).width)) =
      placeFrom offset (lineOf segments) := by
  induction segments generalizing offset with
  | nil => rfl
  | cons segment others ih =>
    obtain ⟨present, present'⟩ := List.forall_mem_cons.mp present
    have wide : segment.body.width ≠ 0 := mt (width_eq_zero_iff _).mp present
    rw [List.flatMap_cons, placeFrom, List.filterMap_cons, lineOf]
    by_cases broken : '\n' ∈ segment.body
    · have shorter := width_firstLine_lt broken
      have later := tiles_placeFrom present' (offset + segment.body.width)
      have none : (placeFrom (offset + segment.body.width) others).filterMap (fun region =>
          region.cut? start (offset + segment.body.firstLine.width)) = [] := by
        rw [List.filterMap_eq_nil_iff]
        intro region member
        have ahead := (later.bounds.2 region member).1
        exact Region.cut?_eq_none (.inr (by omega))
      rw [firstLine_append_of_mem broken, if_pos broken, none]
      by_cases starts : segment.body.firstLine = []
      · rw [if_pos starts, starts, Region.cut?_eq_none (.inr (Nat.le_refl offset))]
        rfl
      · have wide : segment.body.firstLine.width ≠ 0 := mt (width_eq_zero_iff _).mp starts
        rw [if_neg starts, Region.cut?_of_beyond behind (show offset < _ by omega)
          (show _ < offset + segment.body.width by omega)]
        simp [placeFrom, firstLine, broken]
    · have oneLine : ∀ c ∈ segment.body, c ≠ '\n' := fun c listed =>
        ne_of_mem_of_not_mem listed broken
      have whole : Region.cut? ⟨offset, offset + segment.body.width, segment.kind⟩ start
          (offset + width (segment.body ++ Text.firstLine (others.flatMap body))) =
            some ⟨offset, offset + segment.body.width, segment.kind⟩ := by
        rw [width_append]
        exact Region.cut?_eq_self (show offset < offset + _ by omega) behind
          (show offset + segment.body.width ≤ _ by omega)
      rw [firstLine_append _ _ oneLine, if_neg broken, whole, width_append, ← Nat.add_assoc,
        ih present' (Nat.le_add_right_of_le behind)]
      rfl

end Segment

namespace Text

/-- The region that covers an offset in code is one of code. -/
theorem kind_of_inCode {text : Text} {offset : Nat} {region : Region}
    (isCode : text.layout.inCode offset = true) (member : region ∈ text.regions)
    (behind : region.start ≤ offset) (ahead : offset < region.stop) : region.kind = .code := by
  have found : text.layout.regionAt? offset = some region :=
    Layout.regionAt?_of_mem text.pairwise_regions member behind ahead
  obtain ⟨region', found', isCode⟩ := Layout.inCode_iff.mp isCode
  obtain rfl := Option.some.inj (found.symm.trans found')
  exact isCode

/-- A place in code parts a stretch of code. What follows the place is laid out by the rest of the
stretch and the segments behind it. -/
theorem exists_laid_of_inCode {left right : Text}
    (isCode : (left ++ right).layout.inCode left.width = true) :
    ∃ before front back others, Laid right (⟨.code, back⟩ :: others) ∧
      left = before.flatMap Segment.body ++ front ∧
      (left ++ right).segments = before ++ ⟨.code, front ++ back⟩ :: others := by
  have inside := lt_width_of_inCode isCode
  cases right with
  | nil => simp at inside
  | cons c right =>
    obtain ⟨before, ⟨kind, body⟩, others, front, back, rest, listed, rfl, split, rfl, laid⟩ :=
      (left ++ c :: right).laid_segments.exists_segment rfl
    obtain rfl : body = front ++ c :: back := split
    obtain rfl : kind = .code := by
      have member : Region.mk (width (before.flatMap Segment.body))
          (width (before.flatMap Segment.body) + width (front ++ c :: back)) kind ∈
            regions (before.flatMap Segment.body ++ front ++ c :: (back ++ rest)) := by
        rw [regions, listed, Segment.placeFrom_append, Nat.zero_add]
        exact List.mem_append_right _ (.head _)
      have behind : width (before.flatMap Segment.body) ≤
          width (before.flatMap Segment.body ++ front) := by simp
      have ahead : width (before.flatMap Segment.body ++ front) <
          width (before.flatMap Segment.body) + width (front ++ c :: back) := by
        have positive : 0 < c.utf8Size := c.utf8Size_pos
        simp only [width_append, width_cons]
        omega
      exact kind_of_inCode isCode member behind ahead
    refine ⟨before, front, c :: back, others, ?_, rfl, listed⟩
    exact Laid.restart (by rwa [List.append_assoc] at laid ⊢) (List.cons_ne_nil c back)

/-- A span that starts at a place in a segment sees nothing in front of the place: neither the
segments before it nor the front of its own. -/
theorem filterMap_regions_of_segments {left right front back : Text} {kind : Kind}
    {before others : List Segment}
    (listed : (left ++ right).segments = before ++ ⟨kind, front ++ back⟩ :: others)
    (split : left = before.flatMap Segment.body ++ front) (part? : Region → Option Region)
    (passed : ∀ region, region.stop ≤ left.width → part? region = none)
    (parted : ∀ region : Region, region.start ≤ left.width →
      part? region = part? { region with start := left.width }) :
    (left ++ right).regions.filterMap part? =
      (Segment.placeFrom left.width (⟨kind, back⟩ :: others)).filterMap part? := by
  have present : ∀ segment ∈ before, segment.body ≠ [] := by
    intro segment member
    apply (left ++ right).laid_segments.present
    rw [listed]
    exact List.mem_append_left _ member
  have ahead := Segment.tiles_placeFrom present 0
  have none : (Segment.placeFrom 0 before).filterMap part? = [] := by
    rw [List.filterMap_eq_nil_iff]
    intro region member
    apply passed
    have stops := (ahead.bounds.2 region member).2
    rw [split, width_append]
    omega
  have stop : width (before.flatMap Segment.body) + width (front ++ back) =
      left.width + width back := by
    rw [split, width_append, width_append]
    omega
  rw [regions, listed, Segment.placeFrom_append, List.filterMap_append, none, List.nil_append,
    Nat.zero_add, Segment.placeFrom, Segment.placeFrom, List.filterMap_cons, List.filterMap_cons,
    parted _ (show width (before.flatMap Segment.body) ≤ _ by rw [split]; simp), stop]

/-- From a place in code on, the regions of the rest of the text are those of the text, cut off
at the place and counted from it. The same holds for the rest of the line, except that a literal
that goes on behind the line is not closed there. -/
theorem regions_of_rest_and_line {text : Text} {start : Nat} (boundary : text.Boundary start)
    (isCode : text.layout.inCode start = true) :
    let stop := (text.lineBounds start).2
    ∃ line rest, text.slice? start stop = some line ∧ text.from? start = some rest ∧
      line.regions =
        (text.regions.filterMap fun region => region.cut? start stop).map (·.since start) ∧
      rest.regions =
        (text.regions.filterMap fun region => region.within? start text.width).map
          (·.since start) := by
  obtain ⟨left, right, rfl, rfl⟩ := boundary
  obtain ⟨before, front, back, others, laid, split, listed⟩ := exists_laid_of_inCode isCode
  have seen := filterMap_regions_of_segments listed split
  have present := laid.present
  refine ⟨right.firstLine, right, ?_, from?_width left right, ?_, ?_⟩
  · rw [lineBounds_width]
    obtain ⟨below, parts⟩ : right.firstLine <+: right := List.takeWhile_prefix _
    exact (slice?_eq_some_iff _ _ _ _).mpr
      ⟨left, below, by rw [List.append_assoc, parts], rfl, rfl⟩
  · have line := Segment.filterMap_cut?_placeFrom present (Nat.le_refl left.width)
    rw [laid.flatMap_body] at line
    rw [seen _ (fun _ passed => Region.cut?_eq_none (.inl passed))
      (fun _ behind => Region.cut?_of_start_le behind _), lineBounds_width, line,
      laid.firstLine.regions_eq]
    exact (Segment.map_since_placeFrom left.width 0 _).symm
  · have whole := Segment.tiles_placeFrom present left.width
    rw [laid.flatMap_body, ← width_append] at whole
    rw [seen _ (fun _ passed => Region.within?_eq_none (.inl passed))
      (fun _ behind => Region.within?_of_start_le behind _), laid.regions_eq]
    rw [whole.filterMap_within?_self]
    exact (Segment.map_since_placeFrom left.width 0 _).symm

/-- A literal that an escaped newline carries over to the next line: read alone, the line leaves it
open, and the rest of the text closes it. -/
theorem regions_of_rest_and_broken_literal :
    let text : Text := "x = 'a\\\nb'".toList
    text.Boundary 2 ∧ text.layout.inCode 2 = true ∧ (text.lineBounds 2).2 = 7 ∧
      ∃ line rest, text.slice? 2 7 = some line ∧ text.from? 2 = some rest ∧
        line.regions = [⟨0, 2, .code⟩, ⟨2, 5, .unterminated⟩] ∧
        rest.regions = [⟨0, 2, .code⟩, ⟨2, 8, .literal⟩] := by
  intro text
  have boundary : text.Boundary 2 := ⟨"x ".toList, "= 'a\\\nb'".toList, by decide, by decide⟩
  have isCode : text.layout.inCode 2 = true := by decide +kernel
  have stop : (text.lineBounds 2).2 = 7 := by decide +kernel
  obtain ⟨line, rest, slice, remains, onLine, onRest⟩ := regions_of_rest_and_line boundary isCode
  rw [stop] at slice onLine
  refine ⟨boundary, isCode, stop, line, rest, slice, remains, ?_, ?_⟩
  · rw [onLine]
    decide +kernel
  · rw [onRest]
    decide +kernel

end Text

end ScriptCheck
