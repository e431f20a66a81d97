import ScriptCheck.Proofs.Pairing
import ScriptCheck.Proofs.Seams

/-!
# Asking a layout by offset

A layout is asked for the region of a byte, for whether a byte is code, and for the regions of
a span. The answers are found by skipping regions from the front, and a span is cut out of the
first and the last region that reach into it. That this is right rests on the order of the
regions alone: none is empty, and each starts where the one in front of it stops.

Here each answer is compared with one that looks at all regions: those that cover the byte,
the bytes that a walk over the code visits, and the part that each region has in the span.
-/

namespace ScriptCheck

/-- The part of a region within a span, if there is one. -/
def Region.within? (region : Region) (start stop : Nat) : Option Region :=
  if max region.start start < min region.stop stop then
    some { region with start := max region.start start, stop := min region.stop stop }
  else
    none

/-- A region covers the offsets from its start up to its stop. -/
theorem Region.covers_iff {region : Region} {offset : Nat} :
    region.covers offset = true ↔ region.start ≤ offset ∧ offset < region.stop := by
  simp [Region.covers]

/-- A region outside of a span has no part in it. -/
theorem Region.within?_eq_none {region : Region} {start stop : Nat}
    (outside : region.stop ≤ start ∨ stop ≤ region.start) : region.within? start stop = none :=
  if_neg (by omega)

/-! ### Regions without a gap -/

/-- Regions that follow one another without a gap from one offset to another, none of them
empty. -/
structure Tiles (start finish : Nat) (regions : List Region) : Prop where
  consecutive : Text.Consecutive start finish regions
  nonempty : ∀ region ∈ regions, region.start < region.stop

/-- The regions of a text tile it from its start to its end. -/
theorem Text.tiles_regions (text : Text) : Tiles 0 text.width text.regions :=
  ⟨text.tiling_regions.consecutive, text.tiling_regions.nonempty⟩

namespace Tiles

variable {start finish offset : Nat} {region : Region} {regions others : List Region}

/-- Regions tile a stretch if the first starts it and the rest follow. -/
theorem cons_iff : Tiles start finish (region :: others) ↔
    region.start = start ∧ region.start < region.stop ∧ Tiles region.stop finish others := by
  constructor
  · rintro ⟨⟨starts, consecutive⟩, nonempty⟩
    obtain ⟨inOrder, nonempty⟩ := List.forall_mem_cons.mp nonempty
    exact ⟨starts, inOrder, consecutive, nonempty⟩
  · rintro ⟨starts, inOrder, consecutive, nonempty⟩
    exact ⟨⟨starts, consecutive⟩, List.forall_mem_cons.mpr ⟨inOrder, nonempty⟩⟩

/-- The regions lie between the two offsets. -/
theorem bounds (tiles : Tiles start finish regions) :
    start ≤ finish ∧ ∀ region ∈ regions, start ≤ region.start ∧ region.stop ≤ finish := by
  induction regions generalizing start with
  | nil => exact ⟨Nat.le_of_eq tiles.consecutive, by simp⟩
  | cons region others ih =>
    obtain ⟨rfl, inOrder, further⟩ := cons_iff.mp tiles
    obtain ⟨ends, within⟩ := ih further
    refine ⟨by omega, List.forall_mem_cons.mpr ⟨⟨Nat.le_refl _, ends⟩, ?_⟩⟩
    intro other member
    have inside := within other member
    omega

/-- Every offset between the two is in one of the regions. -/
theorem exists_covers (tiles : Tiles start finish regions) (behind : start ≤ offset)
    (ahead : offset < finish) : ∃ region ∈ regions, region.covers offset = true := by
  induction regions generalizing start with
  | nil =>
    have empty : start = finish := tiles.consecutive
    omega
  | cons region others ih =>
    obtain ⟨rfl, -, further⟩ := cons_iff.mp tiles
    rcases Nat.lt_or_ge offset region.stop with here | later
    · exact ⟨region, .head _, Region.covers_iff.mpr ⟨behind, here⟩⟩
    · obtain ⟨other, member, covers⟩ := ih further later
      exact ⟨other, .tail _ member, covers⟩

/-- No region covers an offset in front of all of them. -/
theorem filter_covers_eq_nil (tiles : Tiles start finish regions) (ahead : offset < start) :
    regions.filter (fun region => region.covers offset) = [] := by
  rw [List.filter_eq_nil_iff]
  intro region member covers
  have behind := (tiles.bounds.2 region member).1
  have within := (Region.covers_iff.mp covers).1
  omega

/-- No region reaches into a span in front of all of them. -/
theorem filterMap_within?_eq_nil (tiles : Tiles start finish regions) {first last : Nat}
    (ahead : last ≤ start) : regions.filterMap (fun region => region.within? first last) = [] := by
  rw [List.filterMap_eq_nil_iff]
  intro region member
  have behind := (tiles.bounds.2 region member).1
  exact Region.within?_eq_none (.inr (by omega))

/-- The parts of the regions in a span follow one another as the regions do. If the span ends
in front of the regions or starts behind them, there are none. -/
theorem filterMap_within? (tiles : Tiles start finish regions) {first last : Nat}
    (ordered : first < last) :
    Tiles (max start first) (max (max start first) (min last finish))
      (regions.filterMap fun region => region.within? first last) := by
  induction regions generalizing start with
  | nil =>
    obtain rfl : start = finish := tiles.consecutive
    exact ⟨show max start first = _ by omega, by simp⟩
  | cons region others ih =>
    obtain ⟨rfl, inOrder, further⟩ := cons_iff.mp tiles
    have parts := ih further
    have ends := further.bounds.1
    rw [List.filterMap_cons]
    rcases Nat.lt_or_ge first region.stop with reaches | passed
    · rcases Nat.lt_or_ge region.start last with here | beyond
      · have part : region.within? first last = some
            { region with start := max region.start first, stop := min region.stop last } :=
          if_pos (by omega)
        rw [part]
        refine cons_iff.mpr ⟨rfl, show max region.start first < min region.stop last by omega, ?_⟩
        show Tiles (min region.stop last) _ _
        rcases Nat.lt_or_ge region.stop last with goesOn | stops
        · have same : max region.stop first = min region.stop last := by omega
          have same' : max (max region.stop first) (min last finish) =
              max (max region.start first) (min last finish) := by omega
          rwa [same', same] at parts
        · rw [further.filterMap_within?_eq_nil stops]
          exact ⟨show min region.stop last = _ by omega, by simp⟩
      · rw [Region.within?_eq_none (.inr beyond), further.filterMap_within?_eq_nil (by omega)]
        exact ⟨show max region.start first = _ by omega, by simp⟩
    · have same : max region.stop first = max region.start first := by omega
      rw [Region.within?_eq_none (.inl passed)]
      rwa [same] at parts

end Tiles

/-! ### The answers -/

namespace Layout

variable (layout : Layout) {start finish : Nat}

/-- The region that is found at an offset is the only one that covers it. The induction is on the
regions. -/
theorem filter_covers (tiles : Tiles start finish layout.regions) (offset : Nat) :
    layout.regions.filter (fun region => region.covers offset) =
      (layout.regionAt? offset).toList := by
  obtain ⟨regions, pairs, balance⟩ := layout
  induction regions generalizing start with
  | nil => rfl
  | cons region others ih =>
    obtain ⟨rfl, inOrder, further⟩ := Tiles.cons_iff.mp tiles
    rw [List.filter_cons]
    rcases Nat.lt_or_ge offset region.stop with ahead | passed
    · rw [further.filter_covers_eq_nil ahead]
      rcases Nat.lt_or_ge offset region.start with before | behind
      · have misses : region.covers offset = false := by simp [Region.covers, before]
        simp [regionAt?, regionsAfter, ahead, misses]
      · rw [regionAt?_of_covers rfl behind ahead, if_pos (Region.covers_iff.mpr ⟨behind, ahead⟩)]
        rfl
    · have misses : region.covers offset = false := by simp [Region.covers, passed]
      rw [regionAt?_of_stop_le rfl passed, misses]
      exact ih further

/-- The regions that are found in a span are the parts that regions have in it. -/
theorem regionsWithin_eq_filterMap (tiles : Tiles start finish layout.regions) {first last : Nat}
    (ordered : first < last) :
    layout.regionsWithin first last =
      layout.regions.filterMap fun region => region.within? first last := by
  have taken {regions : List Region} {start : Nat} (tiles : Tiles start finish regions)
      (reaches : ∀ region ∈ regions, first < region.stop) :
      ((regions.takeWhile fun region => region.start < last).map fun region =>
          { region with start := max region.start first, stop := min region.stop last }) =
        regions.filterMap fun region => region.within? first last := by
    induction regions generalizing start with
    | nil => rfl
    | cons region others ih =>
      obtain ⟨rfl, inOrder, further⟩ := Tiles.cons_iff.mp tiles
      obtain ⟨reaches, later⟩ := List.forall_mem_cons.mp reaches
      rw [List.filterMap_cons]
      rcases Nat.lt_or_ge region.start last with here | beyond
      · have part : region.within? first last = some
            { region with start := max region.start first, stop := min region.stop last } :=
          if_pos (by omega)
        rw [List.takeWhile_cons_of_pos (by simpa using here), part, List.map_cons,
          ih further later]
      · rw [List.takeWhile_cons_of_neg (by simpa using beyond),
          Region.within?_eq_none (.inr beyond), further.filterMap_within?_eq_nil (by omega)]
        rfl
  rw [regionsWithin, regionsAfter]
  generalize layout.regions = regions at tiles
  induction regions generalizing start with
  | nil => rfl
  | cons region others ih =>
    obtain ⟨rfl, inOrder, further⟩ := Tiles.cons_iff.mp tiles
    rcases Nat.lt_or_ge first region.stop with reaches | passed
    · rw [List.dropWhile_cons_of_neg (by simpa using reaches)]
      refine taken tiles (List.forall_mem_cons.mpr ⟨reaches, ?_⟩)
      intro other member
      have behind := (further.bounds.2 other member).1
      have inOrder' := further.nonempty other member
      omega
    · rw [List.dropWhile_cons_of_pos (by simpa using passed), ih further,
        List.filterMap_cons, Region.within?_eq_none (.inl passed)]

end Layout

namespace Text

variable {text : Text} {offset : Nat} {byte : Char}

/-- Once a region stops behind an offset, all later ones do, so that dropping the first ones is a
filter. -/
theorem regionsAfter_eq_filter (text : Text) (offset : Nat) :
    text.layout.regionsAfter offset = text.regions.filter fun region => offset < region.stop := by
  have split : text.regions =
      text.regions.takeWhile (fun region => region.stop ≤ offset) ++
        text.layout.regionsAfter offset := List.takeWhile_append_dropWhile.symm
  have passed : (text.regions.takeWhile fun region => region.stop ≤ offset).filter
      (fun region => offset < region.stop) = [] := by
    rw [List.filter_eq_nil_iff]
    intro region member
    simpa using List.all_eq_true.mp List.all_takeWhile region member
  have kept : (text.layout.regionsAfter offset).filter (fun region => offset < region.stop) =
      text.layout.regionsAfter offset := by
    rw [List.filter_eq_self]
    intro region member
    simpa using lt_stop_of_mem_regionsAfter member
  conv => rhs; rw [split]
  rw [List.filter_append, passed, kept, List.nil_append]

/-- The bytes that are read from an offset on are those of the text between the two ends. The
induction is on their number. -/
theorem mem_bytesFrom? {start count : Nat} {bytes : List (Nat × Char)}
    (read : text.bytesFrom? start count = some bytes) :
    (offset, byte) ∈ bytes ↔
      start ≤ offset ∧ offset < start + count ∧ text.byteAt? offset = some byte := by
  induction count generalizing start bytes with
  | zero =>
    cases read
    simp only [List.not_mem_nil, false_iff]
    omega
  | succ count ih =>
    obtain ⟨first, present, read⟩ := Option.bind_eq_some_iff.mp read
    obtain ⟨others, further, read⟩ := Option.bind_eq_some_iff.mp read
    cases read
    rw [List.mem_cons, ih further, Prod.mk.injEq]
    constructor
    · rintro (⟨rfl, rfl⟩ | ⟨behind, ahead, stands⟩)
      · exact ⟨Nat.le_refl _, by omega, present⟩
      · exact ⟨by omega, by omega, stands⟩
    · rintro ⟨behind, ahead, stands⟩
      rcases Nat.eq_or_lt_of_le behind with rfl | later
      · exact .inl ⟨rfl, Option.some.inj (stands.symm.trans present)⟩
      · exact .inr ⟨later, by omega, stands⟩

/-- A walk over the code visits the bytes of the regions of code, each at its offset, and no
others. -/
theorem mem_codeBytes? {regions : List Region} {visited : List (Nat × Char)}
    (inOrder : ∀ region ∈ regions, region.start < region.stop)
    (walked : text.codeBytes? regions = some visited) :
    (offset, byte) ∈ visited ↔
      (∃ region ∈ regions, region.kind = .code ∧ region.covers offset = true) ∧
        text.byteAt? offset = some byte := by
  induction regions generalizing visited with
  | nil =>
    cases walked
    simp
  | cons region others ih =>
    obtain ⟨inOrder, inOrder'⟩ := List.forall_mem_cons.mp inOrder
    by_cases isCode : region.kind = .code
    · rw [codeBytes?, if_pos isCode] at walked
      obtain ⟨bytes, read, walked⟩ := Option.bind_eq_some_iff.mp walked
      obtain ⟨later, further, walked⟩ := Option.bind_eq_some_iff.mp walked
      cases walked
      have stop : region.start + (region.stop - region.start) = region.stop := by omega
      rw [List.mem_append, mem_bytesFrom? read, stop, ← and_assoc, ← Region.covers_iff,
        ih inOrder' further, ← or_and_right]
      simp only [List.mem_cons, exists_eq_or_imp, isCode, true_and]
    · rw [codeBytes?, if_neg isCode, Option.bind_eq_bind, Option.bind_some] at walked
      obtain ⟨later, further, walked⟩ := Option.bind_eq_some_iff.mp walked
      cases walked
      rw [List.nil_append, ih inOrder' further]
      simp only [List.mem_cons, exists_eq_or_imp, isCode, false_and, false_or]

/-- The byte at an offset is code exactly if it is one of a character of the code. -/
theorem inCode_iff_mem_codeChars : text.layout.inCode offset = true ↔
    ∃ placed ∈ text.codeChars, placed.1 ≤ offset ∧ offset < placed.1 + placed.2.utf8Size := by
  rw [codeChars_eq_scan]
  constructor
  · intro isCode
    obtain ⟨left, c, right, index, rfl, inside, rfl⟩ :=
      exists_char_of_lt (lt_width_of_inCode isCode)
    rw [inCode_layout_byte left right c inside] at isCode
    exact ⟨(left.width, c),
      Mode.mem_scan_iff.mpr ⟨left, right, rfl, (Nat.zero_add _).symm, isCode⟩,
      Nat.le_add_right _ _, Nat.add_lt_add_left inside _⟩
  · rintro ⟨⟨position, c⟩, member, behind, ahead⟩
    obtain ⟨left, right, rfl, rfl, shown⟩ := Mode.mem_scan_iff.mp member
    rw [Nat.zero_add] at behind ahead
    obtain ⟨index, rfl⟩ := Nat.exists_eq_add_of_le behind
    rwa [inCode_layout_byte left right c (Nat.lt_of_add_lt_add_left ahead)]

end Text

/-- What a layout says about offsets and spans of its text, within the text and past its end.
The regions that stop at an offset or in front of it come first, so that the others can be
found by halving. The region at an offset is the one region that covers it, and there is one
exactly if the offset lies in the text. A byte is code exactly if a walk over the code comes
to it, by bytes or by characters. The regions of a span are the parts, in order, that the
regions of the text have in it; they lie without a gap from the start of the span to its end or
that of the text. -/
theorem Layout.answers_by_regions (text : Text) :
    (∀ offset,
      text.layout.regionsAfter offset =
          text.regions.filter (fun region => offset < region.stop) ∧
        text.regions.filter (fun region => region.covers offset) =
          (text.layout.regionAt? offset).toList ∧
        (text.layout.regionAt? offset = none ↔ text.width ≤ offset) ∧
        (text.layout.inCode offset = true ↔ ∃ placed ∈ text.codeChars,
          placed.1 ≤ offset ∧ offset < placed.1 + placed.2.utf8Size)) ∧
      (∃ visited, text.codeBytes? text.regions = some visited ∧
        ∀ offset byte, (offset, byte) ∈ visited ↔
          text.layout.inCode offset = true ∧ text.byteAt? offset = some byte) ∧
      ∀ start stop, start < stop →
        text.layout.regionsWithin start stop =
            text.regions.filterMap (fun region => region.within? start stop) ∧
          Tiles start (max start (min stop text.width))
            (text.layout.regionsWithin start stop) := by
  have tiles := text.tiles_regions
  refine ⟨?_, ?_, ?_⟩
  · intro offset
    have only : text.regions.filter (fun region => region.covers offset) =
        (text.layout.regionAt? offset).toList := text.layout.filter_covers tiles offset
    refine ⟨text.regionsAfter_eq_filter offset, only, ?_, Text.inCode_iff_mem_codeChars⟩
    constructor
    · intro missing
      rw [missing, Option.toList_none, List.filter_eq_nil_iff] at only
      apply Nat.le_of_not_lt
      intro inside
      obtain ⟨region, member, covers⟩ := tiles.exists_covers (Nat.zero_le _) inside
      exact only region member covers
    · intro past
      apply Option.eq_none_iff_forall_ne_some.mpr
      intro region found
      obtain ⟨member, -, ahead⟩ := of_regionAt? found
      have within := (tiles.bounds.2 region member).2
      omega
  · obtain ⟨visited, walked, -⟩ := Text.codeBytes?_placeFrom [] text.segments
    rw [List.nil_append, text.laid_segments.flatMap_body] at walked
    refine ⟨visited, walked, ?_⟩
    intro offset byte
    rw [Text.mem_codeBytes? tiles.nonempty walked, ← text.isCodeAt_eq_inCode, Text.isCodeAt,
      List.any_eq_true]
    simp only [Bool.and_eq_true, decide_eq_true_eq]
  · intro start stop ordered
    have parts : text.layout.regionsWithin start stop =
        text.regions.filterMap fun region => region.within? start stop :=
      text.layout.regionsWithin_eq_filterMap tiles ordered
    refine ⟨parts, ?_⟩
    rw [parts]
    simpa only [Nat.zero_max] using tiles.filterMap_within? ordered

/-- A span that starts in the first stretch of code and stops in a comment. The two regions at its
ends are clipped. -/
theorem Layout.answers_by_regions_clipped :
    let text : Text := "a('é') // c".toList
    1 < 10 ∧ text.layout.regionsWithin 1 10 =
      [⟨1, 2, .code⟩, ⟨2, 6, .literal⟩, ⟨6, 8, .code⟩, ⟨8, 10, .comment⟩] := by
  intro text
  refine ⟨by decide, ?_⟩
  rw [((answers_by_regions text).2.2 1 10 (by decide)).1]
  decide +kernel

end ScriptCheck
