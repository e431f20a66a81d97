import Mathlib.Data.List.Chain
import Mathlib.Data.Nat.Find
import ScriptCheck.Proofs.ByteScan

/-!
# The only tiling of a text

The regions of a text are found by looking ahead from the start of each comment and literal
to its end. Here it is said what they are, without saying how to find them. Every
condition is about the bytes of the text: what a stretch of code must not contain, where a
comment starts and stops, and of what a literal consists. A tiling is any list of regions
that follow one another without a gap from the start of the text to its end, with no two
stretches of code in a row, each of which meets the condition of its kind.

A tiling need not respect characters; offsets are plain numbers, and a backslash takes one
byte along, not a character. Still every text has one tiling and no other, its regions.
That there is one is shown from the conditions alone. That there is no other follows from
the loop over the bytes: at the start of every region of a tiling the loop has no choice.
-/

namespace ScriptCheck

namespace Text

/-- The bytes from an offset on start with the given ASCII characters. -/
def Shows (text : Text) (offset : Nat) : List Char → Prop
  | [] => True
  | c :: part => text.byteAt? offset = some c ∧ Shows text (offset + 1) part

/-- The first place, from `start` on, at which the bytes show a part. -/
structure FirstAt (text : Text) (part : List Char) (start place : Nat) : Prop where
  ahead : start ≤ place
  shows : text.Shows place part
  first : ∀ offset, start ≤ offset → offset < place → ¬text.Shows offset part

/-- Where a stretch stops that runs to the first such place, and then `beyond` bytes on. If
there is no such place it runs to the end of the text. -/
inductive Stops (text : Text) (part : List Char) (start beyond : Nat) : Nat → Prop where
  | found {place : Nat} (first : text.FirstAt part start place) :
      Stops text part start beyond (place + beyond)
  | never (absent : ∀ offset, start ≤ offset → ¬text.Shows offset part) :
      Stops text part start beyond text.width

/-- A comment or a literal opens at an offset. -/
def Opens (text : Text) (offset : Nat) : Prop :=
  (∃ quote, isQuote quote = true ∧ text.byteAt? offset = some quote) ∨
    text.Shows offset ['/', '/'] ∨ text.Shows offset ['/', '*']

/-- The inside of a literal, from one offset to another: backslashes, each with the byte
behind it, and other bytes. A quote of the literal's own kind is none of these, nor is a
newline, except in a template literal. -/
inductive Runs (text : Text) (quote : Char) : Nat → Nat → Prop where
  | done (offset : Nat) : Runs text quote offset offset
  | pair {start last : Nat} {byte : Char} (escape : text.byteAt? start = some '\\')
      (taken : text.byteAt? (start + 1) = some byte) (further : Runs text quote (start + 2) last) :
      Runs text quote start last
  | byte {start last : Nat} {byte : Char} (present : text.byteAt? start = some byte)
      (unescaping : byte ≠ '\\') (unclosing : byte ≠ quote)
      (spans : byte = '\n' → quote = backquote) (further : Runs text quote (start + 1) last) :
      Runs text quote start last

/-- How a literal without an end stops behind its inside: in front of a newline, unless it
is a template literal, or with the text, of which a lone backslash may be the last byte. -/
inductive BreaksOff (text : Text) (quote : Char) : Nat → Nat → Prop where
  | newline {last : Nat} (present : text.byteAt? last = some '\n') (narrow : quote ≠ backquote) :
      BreaksOff text quote last last
  | finish : BreaksOff text quote text.width text.width
  | lone {last : Nat} (escape : text.byteAt? last = some '\\') (final : last + 1 = text.width) :
      BreaksOff text quote last (last + 1)

/-- What the bytes of a region of each kind must be. -/
inductive Suits (text : Text) : Region → Prop where
  | code {start stop : Nat}
      (plain : ∀ offset, start ≤ offset → offset < stop → ¬text.Opens offset) :
      Suits text ⟨start, stop, .code⟩
  | line {start stop : Nat} (opens : text.Shows start ['/', '/'])
      (stops : text.Stops ['\n'] start 0 stop) : Suits text ⟨start, stop, .comment⟩
  | block {start stop : Nat} (opens : text.Shows start ['/', '*'])
      (stops : text.Stops ['*', '/'] (start + 2) 2 stop) : Suits text ⟨start, stop, .comment⟩
  | literal {start last : Nat} {quote : Char} (mark : isQuote quote = true)
      (opens : text.byteAt? start = some quote) (runs : text.Runs quote (start + 1) last)
      (closes : text.byteAt? last = some quote) : Suits text ⟨start, last + 1, .literal⟩
  | unterminated {start last stop : Nat} {quote : Char} (mark : isQuote quote = true)
      (opens : text.byteAt? start = some quote) (runs : text.Runs quote (start + 1) last)
      (stops : text.BreaksOff quote last stop) : Suits text ⟨start, stop, .unterminated⟩

/-- Regions that follow one another without a gap from one offset to another. -/
def Consecutive (start finish : Nat) : List Region → Prop
  | [] => start = finish
  | region :: others => region.start = start ∧ Consecutive region.stop finish others

/-- The regions that a text may be cut into from an offset on. -/
structure Tiling (text : Text) (start : Nat) (regions : List Region) : Prop where
  consecutive : Consecutive start text.width regions
  nonempty : ∀ region ∈ regions, region.start < region.stop
  apart : regions.IsChain fun region next => ¬(region.kind = .code ∧ next.kind = .code)
  suits : ∀ region ∈ regions, text.Suits region

/-! ### Bytes and characters -/

variable {text : Text} {offset start last stop : Nat} {part : List Char} {quote : Char}
  {region : Region} {regions : List Region}

/-- A byte that is an ASCII character is a character of the text. -/
theorem exists_append_of_byteAt? {c : Char} (ascii : c.utf8Size = 1)
    (present : text.byteAt? offset = some c) :
    ∃ before after, text = before ++ c :: after ∧ before.width = offset := by
  obtain ⟨before, d, after, index, rfl, inside, rfl⟩ :=
    exists_char_of_lt (lt_width_of_byteAt? present)
  obtain ⟨byte, present', of⟩ := exists_byteAt? before after d inside
  rw [present, Option.some.injEq] at present'
  obtain rfl : d = c := (of.eq_iff ascii).mp present'.symm
  exact ⟨before, after, rfl, by omega⟩

/-- There is a byte at every offset within the text. -/
theorem exists_byteAt?_of_lt (inside : offset < text.width) :
    ∃ byte, text.byteAt? offset = some byte :=
  Option.isSome_iff_exists.mp ((byteAt?_isSome_iff text offset).mpr inside)

/-- At the start of a character the bytes show an ASCII part if the characters do. -/
theorem shows_width_iff (before rest : Text) (ascii : ∀ c ∈ part, c.utf8Size = 1) :
    (before ++ rest).Shows before.width part ↔ part <+: rest := by
  induction part generalizing before rest with
  | nil => simp [Shows]
  | cons c part ih =>
    have single : c.utf8Size = 1 := ascii c (by simp)
    rw [Shows, byteAt?_width_eq_some_iff before rest single]
    cases rest with
    | nil => simp
    | cons d rest =>
      have further := ih (before ++ [d]) rest fun e listed =>
        ascii e (by simp [listed])
      simp only [List.append_assoc, List.singleton_append, width_append, width_cons, width_nil,
        Nat.add_zero] at further
      rw [List.head?_cons, Option.some.injEq, List.cons_prefix_cons, eq_comm]
      refine and_congr_right fun same => ?_
      rw [← same, single] at further
      rwa [← same]

/-- Inside a character no ASCII part begins. -/
theorem not_shows_inside (before after : Text) (c : Char) (present : part ≠ [])
    (ascii : ∀ d ∈ part, d.utf8Size = 1) {index : Nat} (positive : 0 < index)
    (inside : index < c.utf8Size) : ¬(before ++ c :: after).Shows (before.width + index) part := by
  intro shows
  obtain ⟨d, part, rfl⟩ := List.exists_cons_of_ne_nil present
  obtain ⟨byte, found, of⟩ := exists_byteAt? before after c inside
  obtain rfl : byte = d := Option.some.inj (found.symm.trans shows.1)
  have narrow : byte.utf8Size = 1 := ascii byte (by simp)
  rcases of with ⟨single, -⟩ | ⟨-, wide⟩ <;> omega

/-- There is nothing behind the end of the text. -/
theorem not_shows_of_width_le (present : part ≠ []) (behind : text.width ≤ offset) :
    ¬text.Shows offset part := by
  intro shows
  obtain ⟨d, part, rfl⟩ := List.exists_cons_of_ne_nil present
  have inside : offset < text.width := lt_width_of_byteAt? shows.1
  omega

/-! ### Comments -/

/-- There is one first place at which the bytes show a part. -/
theorem FirstAt.unique {place place' : Nat} (first : text.FirstAt part start place)
    (first' : text.FirstAt part start place') : place = place' := by
  rcases Nat.lt_trichotomy place place' with before | same | behind
  · exact absurd first.shows (first'.first place first.ahead before)
  · exact same
  · exact absurd first'.shows (first.first place' first'.ahead behind)

/-- A stretch stops at one place. -/
theorem Stops.unique {beyond stop' : Nat} (stops : text.Stops part start beyond stop)
    (stops' : text.Stops part start beyond stop') : stop = stop' := by
  cases stops with
  | found first =>
    cases stops' with
    | found first' => rw [first.unique first']
    | never absent => exact absurd first.shows (absent _ first.ahead)
  | never absent =>
    cases stops' with
    | found first' => exact absurd first'.shows (absent _ first'.ahead)
    | never => rfl

/-- A stretch may as well be taken to start earlier, if the part does not show before. -/
theorem Stops.extend {later beyond : Nat} (stops : text.Stops part later beyond stop)
    (ahead : start ≤ later)
    (passed : ∀ offset, start ≤ offset → offset < later → ¬text.Shows offset part) :
    text.Stops part start beyond stop := by
  cases stops with
  | found first =>
    refine .found ⟨Nat.le_trans ahead first.ahead, first.shows, fun offset behind before => ?_⟩
    by_cases reached : later ≤ offset
    · exact first.first offset reached before
    · exact passed offset behind (by omega)
  | never absent =>
    refine .never fun offset behind => ?_
    by_cases reached : later ≤ offset
    · exact absent offset reached
    · exact passed offset behind (by omega)

/-- A search over the characters finds the first place among the bytes, since an ASCII part begins
with a character only. -/
theorem stops_offsetOf? (before rest : Text) (present : part ≠ [])
    (ascii : ∀ c ∈ part, c.utf8Size = 1) (beyond : Nat) :
    (before ++ rest).Stops part before.width beyond
      ((offsetOf? rest part).elim (before ++ rest).width (before.width + · + beyond)) := by
  fun_induction offsetOf? rest part generalizing before with
  | case1 rest starts =>
    refine .found ⟨Nat.le_refl _, ?_, fun offset ahead behind => by omega⟩
    exact (shows_width_iff before rest ascii).mpr (List.isPrefixOf_iff_prefix.mp starts)
  | case2 =>
    refine .never fun offset ahead => not_shows_of_width_le present ?_
    simpa using ahead
  | case3 c rest starts ih =>
    have further := ih (before ++ [c])
    simp only [List.append_assoc, List.singleton_append, width_append before [c], width_cons,
      width_nil, Nat.add_zero] at further
    -- No occurrence begins at the first character, nor at a later byte of it.
    have passed : ∀ offset, before.width ≤ offset → offset < before.width + c.utf8Size →
        ¬(before ++ c :: rest).Shows offset part := by
      intro offset ahead inside
      obtain ⟨index, rfl⟩ := Nat.exists_eq_add_of_le ahead
      rcases Nat.eq_zero_or_pos index with rfl | positive
      · intro shows
        exact starts (List.isPrefixOf_iff_prefix.mpr
          ((shows_width_iff before (c :: rest) ascii).mp shows))
      · exact not_shows_inside before rest c present ascii positive (by omega)
    have stops := further.extend (Nat.le_add_right _ _) passed
    cases search : offsetOf? rest part with
    | none => simpa [search] using stops
    | some ahead => simpa [search, Nat.add_assoc] using stops

/-- A stretch stops somewhere. -/
theorem exists_stops (text : Text) (part : List Char) (start beyond : Nat) :
    ∃ stop, text.Stops part start beyond stop := by
  by_cases shown : ∃ place, start ≤ place ∧ text.Shows place part
  · classical
    obtain ⟨ahead, shows⟩ := Nat.find_spec shown
    exact ⟨_, .found ⟨ahead, shows, fun offset behind before shows' =>
      Nat.find_min shown before ⟨behind, shows'⟩⟩⟩
  · exact ⟨text.width, .never fun offset ahead shows => shown ⟨offset, ahead, shows⟩⟩

/-! ### Literals -/

/-- A quote differs from every character that is none. -/
theorem isQuote_ne {c : Char} (mark : isQuote quote = true) (other : isQuote c = false) :
    quote ≠ c := by
  rintro rfl
  rw [mark] at other
  exact Bool.noConfusion other

/-- The loop over the bytes of a literal passes over its inside. -/
theorem Runs.literalEnd?_eq (runs : text.Runs quote start last) :
    text.literalEnd? quote start = text.literalEnd? quote last := by
  induction runs with
  | done => rfl
  | pair escape taken further ih =>
    rw [literalEnd?_step escape, if_pos rfl, ih]
  | byte present unescaping unclosing spans further ih =>
    rw [literalEnd?_step present, if_neg unescaping,
      if_neg fun newline => newline.2 (spans newline.1), if_neg unclosing, ih]

/-- The loop stops behind the quote that closes a literal. -/
theorem Runs.literalEnd?_closes (mark : isQuote quote = true) (runs : text.Runs quote start last)
    (closes : text.byteAt? last = some quote) :
    text.literalEnd? quote start = some (last + 1, true) := by
  rw [runs.literalEnd?_eq, literalEnd?_step closes, if_neg (isQuote_ne mark (by decide)),
    if_neg fun newline => isQuote_ne mark (by decide) newline.1, if_pos rfl]

/-- The loop stops where a literal without an end does, or past the end of the text. -/
theorem Runs.literalEnd?_breaksOff (runs : text.Runs quote start last)
    (stops : text.BreaksOff quote last stop) :
    ∃ reached, text.literalEnd? quote start = some (reached, false) ∧
      min reached text.width = stop := by
  rw [runs.literalEnd?_eq]
  cases stops with
  | newline present narrow =>
    have inside : last < text.width := lt_width_of_byteAt? present
    refine ⟨last, ?_, by omega⟩
    rw [literalEnd?_step present, if_neg (by decide), if_pos ⟨rfl, narrow⟩]
  | finish =>
    refine ⟨text.width, ?_, by omega⟩
    rw [literalEnd?, if_neg (by omega)]
    rfl
  | lone escape final =>
    refine ⟨last + 2, ?_, by omega⟩
    rw [literalEnd?_step escape, if_pos rfl, literalEnd?, if_neg (by omega)]
    rfl

/-- The inside of a literal does not run backwards. -/
theorem Runs.le (runs : text.Runs quote start last) : start ≤ last := by
  induction runs with
  | done => exact Nat.le_refl _
  | pair => omega
  | byte => omega

/-- From every offset a literal has an inside, behind which it is closed or breaks off. -/
theorem exists_runs (text : Text) (quote : Char) (within : start ≤ text.width) :
    ∃ last, text.Runs quote start last ∧
      (text.byteAt? last = some quote ∨ ∃ stop, text.BreaksOff quote last stop) := by
  -- The induction is on the number of bytes left, of which a step takes one or two.
  generalize left : text.width - start = count
  induction count using Nat.strongRecOn generalizing start with
  | ind count ih =>
    by_cases inside : start < text.width
    · obtain ⟨byte, present⟩ := exists_byteAt?_of_lt inside
      by_cases escape : byte = '\\'
      · subst escape
        by_cases behind : start + 1 < text.width
        · obtain ⟨taken, present'⟩ := exists_byteAt?_of_lt behind
          obtain ⟨last, runs, ends⟩ :=
            @ih (text.width - (start + 2)) (by omega) (start + 2) (by omega) rfl
          exact ⟨last, .pair present present' runs, ends⟩
        · exact ⟨start, .done start, .inr ⟨start + 1, .lone present (by omega)⟩⟩
      by_cases closing : byte = quote
      · subst closing
        exact ⟨start, .done start, .inl present⟩
      by_cases broken : byte = '\n' ∧ quote ≠ backquote
      · obtain ⟨rfl, narrow⟩ := broken
        exact ⟨start, .done start, .inr ⟨start, .newline present narrow⟩⟩
      · have spans : byte = '\n' → quote = backquote := fun newline =>
          Classical.byContradiction fun narrow => broken ⟨newline, narrow⟩
        obtain ⟨last, runs, ends⟩ :=
          @ih (text.width - (start + 1)) (by omega) (start + 1) (by omega) rfl
        exact ⟨last, .byte present escape closing spans runs, ends⟩
    · obtain rfl : start = text.width := by omega
      exact ⟨text.width, .done _, .inr ⟨text.width, .finish⟩⟩

/-! ### What opens at an offset -/

/-- The loop finds the comment or literal that stands at an offset, with its stop and its kind. The
kinds are gone through. -/
theorem Suits.openingAt?_eq (suits : text.Suits region) (noCode : region.kind ≠ .code) :
    text.openingAt? region.start = some (some (region.stop, region.kind)) := by
  cases suits with
  | code => exact absurd rfl noCode
  | line opens stops =>
    obtain ⟨before, rest, rfl, rfl⟩ := exists_append_of_byteAt? rfl opens.1
    have search : (before ++ '/' :: rest).Stops ['\n'] before.width 0 _ :=
      stops_offsetOf? before ('/' :: rest) (by simp) (by simp [Char.utf8Size]) 0
    rw [stops.unique search]
    simp [openingAt?, opens.1, opens.2.1, from?_width]
  | block opens stops =>
    rename_i start stop
    obtain ⟨before, rest, whole, wide⟩ := exists_append_of_byteAt? rfl opens.2.1
    have behind : start + 2 = (before ++ ['*']).width := by simp [Char.utf8Size, wide]
    have cut : text = (before ++ ['*']) ++ rest := by simp [whole]
    have closing : ∀ c ∈ ['*', '/'], c.utf8Size = 1 := by simp [Char.utf8Size]
    have search := stops_offsetOf? (before ++ ['*']) rest (by simp) closing 2
    have read : text.from? (start + 2) = some rest := by
      rw [behind, cut]
      exact from?_width _ _
    rw [← behind, ← cut] at search
    rw [stops.unique search]
    simp [openingAt?, opens.1, opens.2.1, read]
  | literal mark opens runs closes =>
    have ended := runs.literalEnd?_closes mark closes
    have inside := lt_width_of_byteAt? closes
    have notSlash := isQuote_ne mark (show isQuote '/' = false by decide)
    simp [openingAt?, opens, mark, notSlash, ended]
    omega
  | unterminated mark opens runs stops =>
    obtain ⟨reached, ended, rfl⟩ := runs.literalEnd?_breaksOff stops
    have notSlash := isQuote_ne mark (show isQuote '/' = false by decide)
    simp [openingAt?, opens, mark, notSlash, ended]

/-- Where nothing opens the loop finds nothing, and does not fail within the text. -/
theorem openingAt?_of_not_opens (inside : offset < text.width) (plain : ¬text.Opens offset) :
    text.openingAt? offset = some none := by
  obtain ⟨byte, present⟩ := exists_byteAt?_of_lt inside
  have notQuote : isQuote byte = false := by
    cases mark : isQuote byte with
    | false => rfl
    | true => exact absurd (.inl ⟨byte, mark, present⟩) plain
  have notLine : ¬(byte = '/' ∧ text.byteAt? (offset + 1) = some '/') := by
    rintro ⟨rfl, next⟩
    exact plain (.inr (.inl ⟨present, next, trivial⟩))
  have notBlock : ¬(byte = '/' ∧ text.byteAt? (offset + 1) = some '*') := by
    rintro ⟨rfl, next⟩
    exact plain (.inr (.inr ⟨present, next, trivial⟩))
  simp [openingAt?, present, notQuote, notLine, notBlock]

/-- Comments and literals are not empty, and lie within the text, as each starts with its mark or
quote. -/
theorem Suits.bounds (suits : text.Suits region) (noCode : region.kind ≠ .code) :
    region.start < region.stop ∧ region.stop ≤ text.width := by
  cases suits with
  | code => exact absurd rfl noCode
  | line opens stops =>
    rename_i start stop
    have inside : start < text.width := lt_width_of_byteAt? opens.1
    cases stops with
    | found first =>
      rename_i place
      have ahead : start ≤ place := first.ahead
      have reached : place < text.width := lt_width_of_byteAt? first.shows.1
      have apart : start ≠ place := by
        rintro rfl
        exact absurd (opens.1.symm.trans first.shows.1) (by decide)
      exact ⟨show start < place + 0 by omega, show place + 0 ≤ text.width by omega⟩
    | never => exact ⟨inside, Nat.le_refl _⟩
  | block opens stops =>
    rename_i start stop
    have inside : start < text.width := lt_width_of_byteAt? opens.1
    cases stops with
    | found first =>
      rename_i place
      have ahead : start + 2 ≤ place := first.ahead
      have reached : place + 1 < text.width := lt_width_of_byteAt? first.shows.2.1
      exact ⟨show start < place + 2 by omega, show place + 2 ≤ text.width by omega⟩
    | never => exact ⟨inside, Nat.le_refl _⟩
  | literal mark opens runs closes =>
    have ahead := runs.le
    have inside := lt_width_of_byteAt? closes
    exact ⟨by dsimp only; omega, inside⟩
  | unterminated mark opens runs stops =>
    have ahead := runs.le
    cases stops with
    | newline present => exact ⟨ahead, Nat.le_of_lt (lt_width_of_byteAt? present)⟩
    | finish => exact ⟨ahead, Nat.le_refl _⟩
    | lone escape final => exact ⟨by dsimp only; omega, Nat.le_of_eq final⟩

/-- Where something opens there is a comment or literal. -/
theorem exists_suits (opens : text.Opens offset) :
    ∃ region, region.start = offset ∧ region.kind ≠ .code ∧ text.Suits region := by
  rcases opens with ⟨quote, mark, opens⟩ | opens | opens
  · obtain ⟨last, runs, closes | ⟨stop, stops⟩⟩ :=
      exists_runs text quote (lt_width_of_byteAt? opens)
    · exact ⟨_, rfl, by simp, .literal mark opens runs closes⟩
    · exact ⟨_, rfl, by simp, .unterminated mark opens runs stops⟩
  · obtain ⟨stop, stops⟩ := exists_stops text ['\n'] offset 0
    exact ⟨_, rfl, by simp, .line opens stops⟩
  · obtain ⟨stop, stops⟩ := exists_stops text ['*', '/'] (offset + 2) 2
    exact ⟨_, rfl, by simp, .block opens stops⟩

/-! ### Tilings -/

/-- A tiling is a region that suits, and a tiling from its end on. -/
theorem tiling_cons_iff {others : List Region} :
    text.Tiling start (region :: others) ↔
      region.start = start ∧ region.start < region.stop ∧ text.Suits region ∧
        (region.kind = .code → ∀ next ∈ others.head?, next.kind ≠ .code) ∧
        text.Tiling region.stop others := by
  constructor
  · rintro ⟨⟨starts, consecutive⟩, nonempty, apart, suits⟩
    obtain ⟨separate, apart⟩ := List.isChain_cons.mp apart
    obtain ⟨proper, nonempty⟩ := List.forall_mem_cons.mp nonempty
    obtain ⟨first, suits⟩ := List.forall_mem_cons.mp suits
    exact ⟨starts, proper, first, fun isCode next head code => separate next head ⟨isCode, code⟩,
      ⟨consecutive, nonempty, apart, suits⟩⟩
  · rintro ⟨starts, proper, first, separate, ⟨consecutive, nonempty, apart, suits⟩⟩
    exact ⟨⟨starts, consecutive⟩, List.forall_mem_cons.mpr ⟨proper, nonempty⟩,
      List.isChain_cons.mpr ⟨fun next head codes => separate codes.1 next head codes.2, apart⟩,
      List.forall_mem_cons.mpr ⟨first, suits⟩⟩

/-- A tiling starts within the text, or at its end. -/
theorem Tiling.start_le (tiling : text.Tiling start regions) : start ≤ text.width := by
  induction regions generalizing start with
  | nil => exact Nat.le_of_eq tiling.consecutive
  | cons region others ih =>
    obtain ⟨rfl, proper, -, -, further⟩ := tiling_cons_iff.mp tiling
    have ahead := ih further
    omega

/-- A byte at which nothing opens can be put in front of a tiling: it joins the code that
comes first, or is code by itself. -/
theorem Tiling.exists_cons (tiling : text.Tiling (start + 1) regions) (plain : ¬text.Opens start) :
    ∃ regions', text.Tiling start regions' := by
  have alone : ∀ offset, start ≤ offset → offset < start + 1 → ¬text.Opens offset := by
    intro offset ahead behind
    obtain rfl : offset = start := by omega
    exact plain
  by_cases first : ∃ region ∈ regions.head?, region.kind = .code
  · obtain ⟨⟨begins, stop, kind⟩, head, rfl⟩ := first
    obtain ⟨others, rfl⟩ := List.head?_eq_some_iff.mp head
    obtain ⟨rfl, proper, suits, separate, further⟩ := tiling_cons_iff.mp tiling
    cases suits with
    | code plain' =>
      refine ⟨⟨start, stop, .code⟩ :: others, tiling_cons_iff.mpr
        ⟨rfl, Nat.lt_of_succ_lt proper, .code fun offset ahead behind => ?_, separate, further⟩⟩
      by_cases reached : offset < start + 1
      · exact alone offset ahead reached
      · exact plain' offset (by omega) behind
  · exact ⟨⟨start, start + 1, .code⟩ :: regions, tiling_cons_iff.mpr
      ⟨rfl, Nat.lt_succ_self start, .code alone,
        fun _ next head code => first ⟨next, head, code⟩, tiling⟩⟩

/-- Every text has a tiling from every offset on. The induction is on how much of the text is
left. -/
theorem exists_tiling (text : Text) (within : start ≤ text.width) :
    ∃ regions, text.Tiling start regions := by
  generalize left : text.width - start = count
  induction count using Nat.strongRecOn generalizing start with
  | ind count ih =>
    by_cases opens : text.Opens start
    · obtain ⟨region, rfl, noCode, suits⟩ := exists_suits opens
      obtain ⟨proper, inside⟩ := suits.bounds noCode
      obtain ⟨others, further⟩ :=
        @ih (text.width - region.stop) (by omega) region.stop inside rfl
      exact ⟨region :: others, tiling_cons_iff.mpr
        ⟨rfl, proper, suits, fun isCode => absurd isCode noCode, further⟩⟩
    by_cases inside : start < text.width
    · obtain ⟨others, further⟩ :=
        @ih (text.width - (start + 1)) (by omega) (start + 1) inside rfl
      exact further.exists_cons opens
    · exact ⟨[], ⟨show start = text.width by omega, by simp, .nil, by simp⟩⟩

/-- The loop passes over code. -/
theorem regionsFrom?_of_plain (start : Nat)
    (plain : ∀ place, offset ≤ place → place < stop → ¬text.Opens place) (ahead : offset ≤ stop)
    (inside : stop ≤ text.width) :
    text.regionsFrom? start offset = text.regionsFrom? start stop := by
  obtain ⟨count, rfl⟩ := Nat.exists_eq_add_of_le ahead
  induction count with
  | zero => rfl
  | succ count ih =>
    have here : offset + count < text.width := by omega
    have opening := openingAt?_of_not_opens here (plain _ (by omega) (by omega))
    rw [ih (fun place behind before => plain place behind (by omega)) (by omega)
      (by omega), regionsFrom?_of_none start here opening]
    rfl

/-- The loop finds every tiling, so that there is only one. The induction is on the regions. -/
theorem Tiling.regionsFrom?_eq (tiling : text.Tiling start regions) :
    text.regionsFrom? start start = some regions := by
  induction regions generalizing start with
  | nil =>
    obtain rfl : start = text.width := tiling.consecutive
    rw [regionsFrom?, if_neg (Nat.lt_irrefl _)]
    simp [codeBetween]
  | cons region others ih =>
    obtain ⟨rfl, proper, suits, separate, further⟩ := tiling_cons_iff.mp tiling
    have found := ih further
    by_cases isCode : region.kind = .code
    · obtain ⟨start, stop, kind⟩ := region
      obtain rfl : kind = .code := isCode
      cases suits with
      | code plain =>
        have ends : stop = text.width ∨ ∃ stop' kind, stop < text.width ∧ stop < stop' ∧
            text.openingAt? stop = some (some (stop', kind)) := by
          cases others with
          | nil => exact .inl further.consecutive
          | cons next others =>
            obtain ⟨rfl, proper', suits', -, further'⟩ := tiling_cons_iff.mp further
            have noCode : next.kind ≠ .code := separate rfl next rfl
            exact .inr ⟨_, _, Nat.lt_of_lt_of_le proper' (suits'.bounds noCode).2, proper',
              suits'.openingAt?_eq noCode⟩
        rw [regionsFrom?_of_plain start plain (Nat.le_of_lt proper) further.start_le,
          regionsFrom?_start start ends, found, Option.map_some, codeBetween, if_pos proper]
        rfl
    · rw [regionsFrom?_of_some region.start (Nat.lt_of_lt_of_le proper (suits.bounds isCode).2)
        (suits.openingAt?_eq isCode) proper, found, Option.map_some, codeBetween,
        if_neg (Nat.lt_irrefl _)]
      rfl

/-- The regions of a text meet the conditions. -/
theorem tiling_regions (text : Text) : text.Tiling 0 text.regions := by
  obtain ⟨others, tiling⟩ := text.exists_tiling (Nat.zero_le _)
  have found : text.regionsFrom? 0 0 = some text.regions := text.laid_segments.regionsFrom?_eq []
  obtain rfl : others = text.regions := Option.some.inj (tiling.regionsFrom?_eq.symm.trans found)
  exact tiling

/-- The regions of a text are a tiling of it, and they are the only one. -/
theorem tiling_iff_eq_regions (text : Text) (regions : List Region) :
    text.Tiling 0 regions ↔ regions = text.regions := by
  have only {others : List Region} (tiling : text.Tiling 0 others) : others = text.regions := by
    have found : text.regionsFrom? 0 0 = some text.regions :=
      text.laid_segments.regionsFrom?_eq []
    exact Option.some.inj (tiling.regionsFrom?_eq.symm.trans found)
  constructor
  · exact only
  · rintro rfl
    obtain ⟨others, tiling⟩ := text.exists_tiling (Nat.zero_le _)
    exact only tiling ▸ tiling

end Text

end ScriptCheck
