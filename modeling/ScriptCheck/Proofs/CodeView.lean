import ScriptCheck.Proofs.Scanner
import ScriptCheck.Rule.Delimiter

/-!
# The code of a text, by modes

The code characters of a text, and whether the byte at an offset is code, are read off
the segments. Both are what the automaton says when it comes to the character. Brackets
need no look ahead, so that those of a text are the brackets of its parts, each part
read from the mode in front of it.
-/

namespace ScriptCheck

namespace Mode

/-- A stretch in which nothing opens is code from start to end. -/
theorem marked_of_plain {mode : Mode} {body rest : Text} (resumes : mode.Resumes (body ++ rest))
    (plain : ∀ front c back, body = front ++ c :: back →
      Segment.opening? (c :: (back ++ rest)) = none) :
    Marked true mode body rest ∧ (mode.after body).Resumes rest := by
  induction body generalizing mode with
  | nil => exact ⟨trivial, resumes⟩
  | cons c body ih =>
    obtain ⟨shown, resumes'⟩ := marked_of_opening?_none (plain [] c body rfl) resumes
    obtain ⟨marked, resumes''⟩ := ih resumes' fun front d back split =>
      plain (c :: front) d back (by rw [split, List.cons_append])
    exact ⟨⟨shown, marked⟩, resumes''⟩

end Mode

namespace Layout

variable {layout : Layout} {region : Region} {others : List Region} {offset : Nat}

/-- A region that stops in front of an offset has no say there. -/
theorem regionAt?_of_stop_le (regions : layout.regions = region :: others)
    (passed : region.stop ≤ offset) :
    layout.regionAt? offset = { layout with regions := others }.regionAt? offset := by
  simp [regionAt?, regionsAfter, regions, passed]

/-- The first region has the bytes it covers. -/
theorem regionAt?_of_covers (regions : layout.regions = region :: others)
    (start : region.start ≤ offset) (stop : offset < region.stop) :
    layout.regionAt? offset = some region := by
  have ahead : ¬region.stop ≤ offset := Nat.not_le.mpr stop
  simp [regionAt?, regionsAfter, regions, Region.covers, start, stop, ahead]

end Layout

namespace Laid

variable {text : Text} {segments : List Segment}

/-- The mode in front of a text passes its first segment. -/
theorem first {segment : Segment} (laid : Laid text (segment :: segments)) {mode : Mode}
    (resumes : mode.Resumes text) :
    ∃ rest, text = segment.body ++ rest ∧ Laid rest segments ∧ mode.Passes segment rest := by
  cases laid with
  | opened opening further =>
    rename_i rest
    obtain ⟨rest', whole, passes⟩ := Mode.passes_of_opening? opening resumes
    obtain rfl : rest = rest' := by simpa using whole
    exact ⟨rest, rfl, further, passes⟩
  | code present plain ends further =>
    rename_i body rest
    obtain ⟨marked, resumes'⟩ := Mode.marked_of_plain resumes plain
    exact ⟨rest, rfl, further, present, by simpa using marked, resumes', by simp, by simp⟩

/-- The bodies of the segments, in order, are the text. -/
theorem flatMap_body (laid : Laid text segments) : segments.flatMap Segment.body = text := by
  induction laid with
  | done => rfl
  | opened _ _ ih => rw [List.flatMap_cons, ih]
  | code _ _ _ _ ih => rw [List.flatMap_cons, ih]

/-- The code characters of the segments are those that a scan gives. The induction is on the
segments, each of which a scan shows whole or not at all. -/
theorem codeFrom_eq_scan (laid : Laid text segments) {mode : Mode} (resumes : mode.Resumes text)
    (offset : Nat) : Segment.codeFrom offset segments = mode.scan offset text := by
  induction segments generalizing text mode offset with
  | nil =>
    cases laid
    rfl
  | cons segment segments ih =>
    obtain ⟨rest, rfl, further, passes⟩ := laid.first resumes
    rw [Segment.codeFrom, ih further passes.resumes]
    by_cases kind : segment.kind = .code
    · rw [Mode.scan_of_marked_true (by simpa [kind] using passes.marked)]
      simp [kind]
    · rw [Mode.scan_of_marked_false (by simpa [kind] using passes.marked)]
      simp [kind]

/-- The bytes of a character belong to the region of the segment it stands in. The induction goes
over the segments in front of it, which have stopped before. -/
theorem exists_region (laid : Laid text segments) {mode : Mode} (resumes : mode.Resumes text)
    (offset : Nat) (layout : Layout) (regions : layout.regions = Segment.placeFrom offset segments)
    {left right : Text} {c : Char} (whole : text = left ++ c :: right) {byte : Nat}
    (inside : byte < c.utf8Size) :
    ∃ above front back rest segment others, left = above ++ front ∧ right = back ++ rest ∧
      segment.body = front ++ c :: back ∧ Laid (segment.body ++ rest) (segment :: others) ∧
      (mode.after above).Resumes (segment.body ++ rest) ∧
      layout.regionAt? (offset + left.width + byte) =
        some ⟨offset + above.width, offset + (above ++ segment.body).width, segment.kind⟩ := by
  induction segments generalizing text mode offset layout left with
  | nil =>
    cases laid
    simp at whole
  | cons segment segments ih =>
    obtain ⟨rest, rfl, further, passes⟩ := laid.first resumes
    rcases Text.append_eq_append_cons whole with ⟨front, rfl, behind⟩ | ⟨back, split, rfl⟩
    · have passed : offset + segment.body.width ≤
          offset + (segment.body ++ front).width + byte := by
        rw [Text.width_append]
        omega
      obtain ⟨above, front, back, rest', found, others, rfl, right', body, laid', resumes',
          region⟩ :=
        ih further passes.resumes (offset + segment.body.width)
          { layout with regions := Segment.placeFrom (offset + segment.body.width) segments } rfl
          behind
      refine ⟨segment.body ++ above, front, back, rest', found, others, by simp, right', body,
        laid', by rwa [Mode.after_append], ?_⟩
      rw [Layout.regionAt?_of_stop_le regions passed]
      simpa [Nat.add_assoc] using region
    · have stop : offset + left.width + byte < offset + segment.body.width := by
        rw [split, Text.width_append, Text.width_cons]
        omega
      refine ⟨[], left, back, rest, segment, segments, rfl, rfl, split, laid, resumes, ?_⟩
      rw [Layout.regionAt?_of_covers regions (by simp; omega) stop]
      simp

end Laid

namespace Text

/-- The characters of code are those that a scan shows. -/
theorem codeChars_eq_scan (text : Text) : text.codeChars = Mode.code.scan 0 text :=
  text.laid_segments.codeFrom_eq_scan (.code text) 0

/-- The bytes of a character of a text belong to the region of the segment it stands in. -/
theorem exists_region (left right : Text) (c : Char) {byte : Nat} (inside : byte < c.utf8Size) :
    ∃ above front back rest segment others, left = above ++ front ∧ right = back ++ rest ∧
      segment.body = front ++ c :: back ∧ Laid (segment.body ++ rest) (segment :: others) ∧
      (Mode.code.after above).Resumes (segment.body ++ rest) ∧
      (left ++ c :: right).layout.regionAt? (left.width + byte) =
        some ⟨above.width, (above ++ segment.body).width, segment.kind⟩ := by
  have region := (left ++ c :: right).laid_segments.exists_region (.code _) 0
    (left ++ c :: right).layout rfl rfl inside
  simpa only [Nat.zero_add] using region

/-- Whether a byte of a text is code is known from the mode in front of its character. -/
theorem inCode_layout_byte (left right : Text) (c : Char) {byte : Nat}
    (inside : byte < c.utf8Size) :
    (left ++ c :: right).layout.inCode (left.width + byte) =
      (Mode.code.after left).showsCode c right.head? := by
  obtain ⟨above, front, back, rest, segment, others, rfl, rfl, body, laid, resumes, region⟩ :=
    exists_region left right c inside
  obtain ⟨rest', whole, -, passes⟩ := laid.first resumes
  obtain rfl : rest = rest' := by simpa using whole
  have marked := passes.marked
  rw [body] at marked
  rw [Layout.inCode, region, Mode.after_append, Mode.showsCode_of_marked marked]
  rfl

/-- Whether a character of a text is code is known from the mode in front of it. -/
theorem inCode_layout (left right : Text) (c : Char) :
    (left ++ c :: right).layout.inCode left.width =
      (Mode.code.after left).showsCode c right.head? :=
  inCode_layout_byte left right c c.utf8Size_pos

end Text

/-! ### Brackets and other characters that need no look ahead -/

namespace Bracket

variable {kind : Bracket} {keep : Nat × Char → Bool}

/-- Only the brackets of a kind take part in its pairs, so that all other characters may be left out
before pairing. -/
theorem pairsFrom_filter
    (kept : ∀ offset, keep (offset, kind.opener) = true ∧ keep (offset, kind.closer) = true)
    (stack : List Nat) (code : List (Nat × Char)) :
    kind.pairsFrom stack (code.filter keep) = kind.pairsFrom stack code := by
  induction code generalizing stack with
  | nil => rfl
  | cons placed code ih =>
    obtain ⟨offset, c⟩ := placed
    cases keeps : keep (offset, c) with
    | true =>
      rw [List.filter_cons_of_pos keeps]
      cases stack <;> simp only [pairsFrom, ih]
    | false =>
      have notOpener : c ≠ kind.opener := by
        rintro rfl
        simp [(kept offset).1] at keeps
      have notCloser : c ≠ kind.closer := by
        rintro rfl
        simp [(kept offset).2] at keeps
      rw [List.filter_cons_of_neg (by simp [keeps]), ih]
      cases stack <;> simp only [pairsFrom, notOpener, notCloser, ↓reduceIte]

/-- Nor does another character take part in what stays open, so that the stack of openers may be
computed from the brackets alone. -/
theorem unclosedFrom_filter
    (kept : ∀ offset, keep (offset, kind.opener) = true ∧ keep (offset, kind.closer) = true)
    (stack : List Nat) (code : List (Nat × Char)) :
    kind.unclosedFrom stack (code.filter keep) = kind.unclosedFrom stack code := by
  induction code generalizing stack with
  | nil => rfl
  | cons placed code ih =>
    obtain ⟨offset, c⟩ := placed
    cases keeps : keep (offset, c) with
    | true =>
      rw [List.filter_cons_of_pos keeps, unclosedFrom, unclosedFrom]
      simp only [ih]
    | false =>
      have notOpener : c ≠ kind.opener := by
        rintro rfl
        simp [(kept offset).1] at keeps
      have notCloser : c ≠ kind.closer := by
        rintro rfl
        simp [(kept offset).2] at keeps
      rw [List.filter_cons_of_neg (by simp [keeps]), unclosedFrom, if_neg notOpener,
        if_neg notCloser, ih]

/-- Pairs are made by order alone, whatever the offsets: moving every bracket moves the pairs along
and changes none. -/
theorem pairsFrom_map (move : Nat → Nat) (stack : List Nat) (code : List (Nat × Char)) :
    kind.pairsFrom (stack.map move) (code.map fun (offset, c) => (move offset, c)) =
      (kind.pairsFrom stack code).map fun (opened, closed) => (move opened, move closed) := by
  induction code generalizing stack with
  | nil => rfl
  | cons placed code ih =>
    obtain ⟨offset, c⟩ := placed
    by_cases opener : c = kind.opener
    · simpa [pairsFrom, opener] using ih (offset :: stack)
    · by_cases closer : c = kind.closer
      · subst closer
        cases stack with
        | nil => simpa [pairsFrom, opener] using ih []
        | cons top outer => simpa [pairsFrom, opener] using ih outer
      · have skips (stack : List Nat) (offset : Nat) (rest : List (Nat × Char)) :
            kind.pairsFrom stack ((offset, c) :: rest) = kind.pairsFrom stack rest := by
          cases stack <;> simp [pairsFrom, opener, closer]
        rw [List.map_cons, skips, skips, ih]

/-- What stays open is told by order alone as well. -/
theorem unclosedFrom_map (move : Nat → Nat) (stack : List Nat) (code : List (Nat × Char)) :
    kind.unclosedFrom (stack.map move) (code.map fun (offset, c) => (move offset, c)) =
      (kind.unclosedFrom stack code).map move := by
  induction code generalizing stack with
  | nil => rfl
  | cons placed code ih =>
    obtain ⟨offset, c⟩ := placed
    by_cases opener : c = kind.opener
    · simpa [unclosedFrom, opener] using ih (offset :: stack)
    · by_cases closer : c = kind.closer
      · subst closer
        simpa [unclosedFrom, opener] using ih stack.tail
      · simpa [unclosedFrom, opener, closer] using ih stack

end Bracket

namespace Mode

/-- Whether a letter or bracket that comes next is code. -/
def inCode : Mode → Bool
  | code | slash => true
  | _ => false

/-- A character that neither opens nor ends a comment or literal, nor escapes one. -/
def isPlain (c : Char) : Bool := !isQuote c && c != '/' && c != '*' && c != '\n' && c != '\\'

/-- The plain characters are those that are special in no mode. -/
theorem isPlain_iff {c : Char} :
    isPlain c = true ↔ isQuote c = false ∧ c ≠ '/' ∧ c ≠ '*' ∧ c ≠ '\n' ∧ c ≠ '\\' := by
  simp [isPlain, and_assoc]

/-- The mode alone decides about a plain character. -/
theorem showsCode_of_isPlain {c : Char} (plain : isPlain c = true) (mode : Mode)
    (next : Option Char) : mode.showsCode c next = mode.inCode := by
  obtain ⟨notQuote, notSlash, notStar, notNewline, -⟩ := isPlain_iff.mp plain
  cases mode <;> simp [showsCode, inCode, notQuote, notSlash, notStar, notNewline]

/-- A literal is open only behind a quote. -/
def Proper : Mode → Prop
  | quoted quote | escaped quote => isQuote quote = true
  | _ => True

/-- Reading a character keeps a mode proper, since a literal is entered only at a quote and keeps
that quote. -/
theorem Proper.step {mode : Mode} (proper : mode.Proper) (c : Char) : (mode.step c).Proper := by
  cases mode with
  | escaped quote => exact proper
  | quoted quote =>
    simp only [Mode.step]
    split
    · exact proper
    · split
      · trivial
      · exact proper
  | _ =>
    simp only [Mode.step]
    -- Every branch leaves literals closed, except the ones that open one at a quote.
    repeat' split
    all_goals trivial

/-- Reading a text keeps a mode proper. -/
theorem Proper.after {mode : Mode} (proper : mode.Proper) (text : Text) :
    (mode.after text).Proper := by
  induction text generalizing mode with
  | nil => exact proper
  | cons c rest ih => exact ih (proper.step c)

/-- Every mode that a text leads to from its start is proper. -/
theorem proper_code_after (text : Text) : (code.after text).Proper :=
  have proper : code.Proper := trivial
  proper.after text

/-- A mode of code is proper. -/
theorem Proper.of_inCode {mode : Mode} (inside : mode.inCode = true) : mode.Proper := by
  cases mode with
  | code | slash => trivial
  | _ => cases inside

/-- The mode behind any plain character. -/
def settled : Mode → Mode
  | slash => code
  | star => block
  | escaped quote => quoted quote
  | mode => mode

/-- Settling a mode twice is settling it once. -/
@[simp] theorem settled_settled (mode : Mode) : mode.settled.settled = mode.settled := by
  cases mode <;> rfl

/-- Settling neither enters code nor leaves it. -/
@[simp] theorem inCode_settled (mode : Mode) : mode.settled.inCode = mode.inCode := by
  cases mode <;> rfl

/-- Settled code is plain code that no slash is pending in. -/
theorem settled_of_inCode {mode : Mode} (inside : mode.inCode = true) : mode.settled = code := by
  cases mode with
  | code | slash => rfl
  | _ => cases inside

/-- A plain character settles the mode. -/
theorem step_of_isPlain {c : Char} (plain : isPlain c = true) {mode : Mode} (proper : mode.Proper) :
    mode.step c = mode.settled := by
  obtain ⟨notQuote, notSlash, notStar, notNewline, notBackslash⟩ := isPlain_iff.mp plain
  cases mode with
  | quoted quote =>
    have differs : c ≠ quote := by
      rintro rfl
      rw [Proper, notQuote] at proper
      cases proper
    simp [step, settled, differs, notNewline, notBackslash]
  | _ => simp [step, settled, notQuote, notSlash, notStar, notNewline]

/-- Plain characters settle the mode once. -/
theorem after_of_isPlain {mode : Mode} {text : Text} (proper : mode.Proper) (present : text ≠ [])
    (plain : ∀ c ∈ text, isPlain c = true) : mode.after text = mode.settled := by
  induction text generalizing mode with
  | nil => exact absurd rfl present
  | cons c rest ih =>
    have first : mode.step c = mode.settled := step_of_isPlain (plain c (by simp)) proper
    by_cases last : rest = []
    · rw [last, after_cons, first, after_nil]
    · have proper' : mode.settled.Proper := first ▸ proper.step c
      rw [after_cons, first,
        ih proper' last fun d listed => plain d (by simp [listed]),
        settled_settled]

/-- Plain characters read in code leave code. -/
theorem after_of_inCode {mode : Mode} {text : Text} (inside : mode.inCode = true)
    (present : text ≠ []) (plain : ∀ c ∈ text, isPlain c = true) : mode.after text = code := by
  rw [after_of_isPlain (.of_inCode inside) present plain, settled_of_inCode inside]

/-- Plain characters at the start of a text are read as code. -/
theorem code_after_of_isPlain {text : Text} (plain : ∀ c ∈ text, isPlain c = true) :
    code.after text = code := by
  by_cases empty : text = []
  · rw [empty, after_nil]
  · exact after_of_inCode rfl empty plain

/-- Plain characters neither enter code nor leave it. -/
theorem inCode_after {mode : Mode} {text : Text} (proper : mode.Proper)
    (plain : ∀ c ∈ text, isPlain c = true) : (mode.after text).inCode = mode.inCode := by
  by_cases empty : text = []
  · rw [empty, after_nil]
  · rw [after_of_isPlain proper empty plain, inCode_settled]

/-- Behind a character of code there is code, possibly behind a slash: what opens there is not shown
as code itself. -/
theorem inCode_step_of_showsCode {c : Char} {next : Option Char} {mode : Mode}
    (shown : mode.showsCode c next = true) : (mode.step c).inCode = true := by
  cases mode with
  | code =>
    simp only [showsCode, Bool.and_eq_true, Bool.not_eq_true'] at shown
    simp only [step, shown.1]
    split <;> rfl
  | slash =>
    simp only [showsCode, Bool.and_eq_true, Bool.not_eq_true', bne_iff_ne, ne_eq] at shown
    simp [step, shown, inCode]
  | line =>
    obtain rfl : c = '\n' := by simpa [showsCode] using shown
    rfl
  | quoted quote =>
    simp only [showsCode, Bool.and_eq_true, beq_iff_eq, bne_iff_ne, ne_eq] at shown
    simp [step, shown, inCode]
  | block => simp [showsCode] at shown
  | star => simp [showsCode] at shown
  | escaped quote => simp [showsCode] at shown

/-- The chosen characters of a text that are code, for characters that need no look ahead. -/
def visible (keep : Char → Bool) (mode : Mode) (offset : Nat) : Text → List (Nat × Char)
  | [] => []
  | c :: rest =>
    (if mode.inCode && keep c then [(offset, c)] else []) ++
      (mode.step c).visible keep (offset + c.utf8Size) rest

variable {keep : Char → Bool} {mode : Mode}

/-- The parts of a text are read one after the other. -/
theorem visible_append (offset : Nat) (front rest : Text) :
    mode.visible keep offset (front ++ rest) =
      mode.visible keep offset front ++
        (mode.after front).visible keep (offset + front.width) rest := by
  induction front generalizing mode offset with
  | nil => simp [visible]
  | cons c front ih =>
    simp [visible, ih, Nat.add_assoc]

/-- The chosen code characters are those visible by mode. -/
theorem filter_scan (plain : ∀ c, keep c = true → isPlain c = true) (offset : Nat) (text : Text) :
    (mode.scan offset text).filter (fun (_, c) => keep c) = mode.visible keep offset text := by
  induction text generalizing mode offset with
  | nil => rfl
  | cons c rest ih =>
    rw [scan, visible, List.filter_append, ih]
    congr 1
    by_cases kept : keep c = true
    · rw [showsCode_of_isPlain (plain c kept)]
      cases inside : mode.inCode <;> simp [kept]
    · cases shown : mode.showsCode c rest.head? <;> simp [kept]

/-- Where no chosen character stands, none is visible. -/
theorem visible_eq_nil (offset : Nat) {text : Text} (absent : ∀ c ∈ text, keep c = false) :
    mode.visible keep offset text = [] := by
  induction text generalizing mode offset with
  | nil => rfl
  | cons c rest ih =>
    rw [visible, absent c (by simp),
      ih _ fun d listed => absent d (by simp [listed])]
    simp

/-- A stretch without code shows nothing. -/
theorem visible_of_marked_false (plain : ∀ c, keep c = true → isPlain c = true) (offset : Nat)
    {body rest : Text} (marked : Marked false mode body rest) :
    mode.visible keep offset body = [] := by
  induction body generalizing mode offset with
  | nil => rfl
  | cons c body ih =>
    obtain ⟨hidden, marked⟩ := marked
    rw [visible, ih _ marked]
    by_cases kept : keep c = true
    · rw [showsCode_of_isPlain (plain c kept)] at hidden
      simp [hidden]
    · simp [kept]

/-- In code, a text that does not go on with a slash shows what it shows on its own. -/
theorem visible_of_resumes {rest : Text} (inside : mode.inCode = true) (resumes : mode.Resumes rest)
    (offset : Nat) : mode.visible keep offset rest = code.visible keep offset rest := by
  cases rest with
  | nil => rfl
  | cons c rest =>
    rw [visible, visible, inside, (resumes c (by simp)).1]
    rfl

/-- Code goes on behind a slash with anything but the second half of a comment mark. -/
theorem resumes_of_inCode {rest : Text} (inside : mode.inCode = true)
    (head : ∀ c ∈ rest.head?, c ≠ '/' ∧ c ≠ '*') : mode.Resumes rest := by
  intro c first
  obtain ⟨notSlash, notStar⟩ := head c first
  cases mode with
  | code => exact ⟨rfl, fun _ => rfl⟩
  | slash => simp [step, showsCode, notSlash, notStar, bne, beq_eq_false_iff_ne.mpr]
  | _ => cases inside

/-- What is visible does not depend on where the text starts. -/
theorem map_snd_visible (offset offset' : Nat) (text : Text) :
    (mode.visible keep offset text).map Prod.snd =
      (mode.visible keep offset' text).map Prod.snd := by
  induction text generalizing mode offset offset' with
  | nil => rfl
  | cons c rest ih =>
    rw [visible, visible, List.map_append, List.map_append,
      ih (offset + c.utf8Size) (offset' + c.utf8Size)]
    split <;> rfl

/-- Nothing is visible, wherever the text starts. -/
theorem visible_eq_nil_of_visible {offset : Nat} {text : Text}
    (none : mode.visible keep offset text = []) (offset' : Nat) :
    mode.visible keep offset' text = [] := by
  have same := @map_snd_visible keep mode offset' offset text
  rw [none] at same
  exact List.map_eq_nil_iff.mp same

/-- Among plain characters all chosen are visible in code only. -/
theorem map_snd_visible_of_isPlain (proper : mode.Proper) {offset : Nat} {text : Text}
    (plain : ∀ c ∈ text, isPlain c = true) :
    (mode.visible keep offset text).map Prod.snd =
      if mode.inCode then text.filter keep else [] := by
  induction text generalizing mode offset with
  | nil => simp [visible]
  | cons c rest ih =>
    have next : (mode.step c).inCode = mode.inCode := by
      rw [step_of_isPlain (plain c (by simp)) proper, inCode_settled]
    rw [visible, List.map_append,
      ih (proper.step c) fun d listed => plain d (by simp [listed]), next]
    cases inside : mode.inCode <;> cases kept : keep c <;> simp [kept]

end Mode

namespace Bracket

/-- The two characters of a kind of bracket. -/
def isSide (kind : Bracket) (c : Char) : Bool := c == kind.opener || c == kind.closer

/-- Both sides of a kind of bracket are brackets of that kind. -/
theorem isSide_sides (kind : Bracket) (_offset : Nat) :
    kind.isSide kind.opener = true ∧ kind.isSide kind.closer = true := by
  simp [isSide]

/-- A bracket is a plain character, whichever kind it is of. -/
theorem isPlain_of_isSide {kind : Bracket} (c : Char) (side : kind.isSide c = true) :
    Mode.isPlain c = true := by
  rcases Bool.or_eq_true_iff.mp side with same | same <;> obtain rfl := beq_iff_eq.mp same <;>
    cases kind <;> rfl

/-- Brackets are paired by what the modes show of them. -/
theorem pairs_codeChars (kind : Bracket) (text : Text) :
    kind.pairs text.codeChars = kind.pairsFrom [] (Mode.code.visible kind.isSide 0 text) := by
  rw [pairs, ← @pairsFrom_filter kind (fun (_, c) => kind.isSide c) kind.isSide_sides,
    Text.codeChars_eq_scan, Mode.filter_scan isPlain_of_isSide]

/-- So is what stays open. -/
theorem unclosedFrom_codeChars (kind : Bracket) (text : Text) :
    kind.unclosedFrom [] text.codeChars =
      kind.unclosedFrom [] (Mode.code.visible kind.isSide 0 text) := by
  rw [← @unclosedFrom_filter kind (fun (_, c) => kind.isSide c) kind.isSide_sides,
    Text.codeChars_eq_scan, Mode.filter_scan isPlain_of_isSide]

end Bracket

/-- The layout takes a plain character for code when the mode in front of it is one of code. -/
theorem Text.layout_inCode_eq {text left right : Text} {c : Char}
    (whole : text = left ++ c :: right) (plain : Mode.isPlain c = true) :
    text.layout.inCode left.width = (Mode.code.after left).inCode := by
  rw [whole, Text.inCode_layout, Mode.showsCode_of_isPlain plain]

end ScriptCheck
