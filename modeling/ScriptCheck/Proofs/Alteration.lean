import ScriptCheck.Proofs.Pairing
import ScriptCheck.Proofs.Seams

/-!
# Altering a text part by part

An alteration lists the parts of a text and of the one it is made into: what both have,
what is added, and what is dropped. From it one reads both texts, which bytes are kept, and
where they have moved.

The parts of a seamless alteration meet at seams, in both texts. Then a kept byte keeps its
kind, and the brackets of the new text are those of the kept and the added parts, in the
order of the parts.
-/

namespace ScriptCheck

namespace Text

variable {front : Text} {offset : Nat}

/-- A byte of the front of a text is found there whatever follows. -/
theorem byteAt?_append_of_lt (inside : offset < front.width) (rest : Text) :
    (front ++ rest).byteAt? offset = front.byteAt? offset := by
  rw [byteAt?, encode_append, List.getElem?_append_left (by rwa [length_encode]), byteAt?]

/-- Behind the front of a text the bytes are those of the rest. -/
theorem byteAt?_append_add (front rest : Text) (offset : Nat) :
    (front ++ rest).byteAt? (front.width + offset) = rest.byteAt? offset := by
  rw [byteAt?, encode_append, ← length_encode front, List.getElem?_append_right (by omega),
    Nat.add_sub_cancel_left, byteAt?]

end Text

/-- A stretch of a text that is altered. -/
inductive Part where
  | kept (body : Text)
  | added (body : Text)
  | dropped (body : Text)
  deriving DecidableEq, Repr

namespace Part

/-- What stands there before. -/
def old : Part → Text
  | kept body | dropped body => body
  | added _ => []

/-- What stands there afterwards. -/
def new : Part → Text
  | kept body | added body => body
  | dropped _ => []

def isKept : Part → Bool
  | kept _ => true
  | added _ | dropped _ => false

/-- A part that is kept is the same before and after. -/
theorem new_eq_old {part : Part} (kept : part.isKept = true) : part.new = part.old := by
  cases part with
  | kept body => rfl
  | added | dropped => cases kept

end Part

/-- The parts of a text and of what it is made into. -/
abbrev Alteration := List Part

namespace Alteration

/-- The text that is altered. -/
def before (parts : Alteration) : Text := parts.flatMap Part.old

/-- The text it is made into. -/
def after (parts : Alteration) : Text := parts.flatMap Part.new

/-- Whether a byte of the text is kept. -/
def keeps : Alteration → Nat → Bool
  | [], _ => false
  | part :: rest, offset =>
    if offset < part.old.width then part.isKept else keeps rest (offset - part.old.width)

/-- Where a kept byte stands afterwards. -/
def moved : Alteration → Nat → Nat
  | [], offset => offset
  | part :: rest, offset =>
    if offset < part.old.width then offset
    else part.new.width + moved rest (offset - part.old.width)

variable {parts front rest : Alteration} {part : Part} {offset : Nat}

/-- An alteration without parts has nothing before it. -/
@[simp] theorem before_nil : before [] = [] := rfl

/-- The text before starts with the old text of the first part. -/
@[simp] theorem before_cons (part : Part) (rest : Alteration) :
    before (part :: rest) = part.old ++ before rest := rfl

/-- An alteration without parts leaves nothing either. -/
@[simp] theorem after_nil : after [] = [] := rfl

/-- The text after starts with the new text of the first part. -/
@[simp] theorem after_cons (part : Part) (rest : Alteration) :
    after (part :: rest) = part.new ++ after rest := rfl

/-- Two alterations in a row have their old texts in a row. -/
theorem before_append (front rest : Alteration) :
    before (front ++ rest) = before front ++ before rest := List.flatMap_append

/-- Two alterations in a row leave their new texts in a row. -/
theorem after_append (front rest : Alteration) :
    after (front ++ rest) = after front ++ after rest := List.flatMap_append

/-! ### Where bytes have moved -/

/-- A byte of the first part is kept exactly if that part is. -/
theorem keeps_cons_of_lt (inside : offset < part.old.width) :
    keeps (part :: rest) offset = part.isKept := if_pos inside

/-- Whether a byte behind the first part is kept is up to the others. -/
theorem keeps_cons_add (part : Part) (rest : Alteration) (offset : Nat) :
    keeps (part :: rest) (part.old.width + offset) = keeps rest offset := by
  rw [keeps, if_neg (by omega), Nat.add_sub_cancel_left]

/-- A byte of the first part stays at its offset. -/
theorem moved_cons_of_lt (inside : offset < part.old.width) :
    moved (part :: rest) offset = offset := if_pos inside

/-- A byte behind the first part also moves by what that part grows. -/
theorem moved_cons_add (part : Part) (rest : Alteration) (offset : Nat) :
    moved (part :: rest) (part.old.width + offset) = part.new.width + moved rest offset := by
  rw [moved, if_neg (by omega), Nat.add_sub_cancel_left]

/-- A kept byte is one of a kept part, or of the parts behind. -/
theorem keeps_cons (kept : keeps (part :: rest) offset = true) :
    (offset < part.old.width ∧ part.isKept = true) ∨
      ∃ later, offset = part.old.width + later ∧ keeps rest later = true := by
  rcases Nat.lt_or_ge offset part.old.width with inside | behind
  · rw [keeps_cons_of_lt inside] at kept
    exact .inl ⟨inside, kept⟩
  · obtain ⟨later, rfl⟩ := Nat.exists_eq_add_of_le behind
    rw [keeps_cons_add] at kept
    exact .inr ⟨later, rfl, kept⟩

/-- A kept byte lies in the text before, and moves into the text after. -/
theorem bounds_of_keeps (kept : parts.keeps offset = true) :
    offset < parts.before.width ∧ parts.moved offset < parts.after.width := by
  induction parts generalizing offset with
  | nil => cases kept
  | cons part rest ih =>
    rw [before_cons, after_cons, Text.width_append, Text.width_append]
    rcases keeps_cons kept with ⟨inside, isKept⟩ | ⟨later, rfl, keptLater⟩
    · rw [moved_cons_of_lt inside, Part.new_eq_old isKept]
      omega
    · obtain ⟨old, new⟩ := ih keptLater
      rw [moved_cons_add]
      omega

/-- A kept byte is the same byte. -/
theorem byteAt?_moved (kept : parts.keeps offset = true) :
    parts.after.byteAt? (parts.moved offset) = parts.before.byteAt? offset := by
  induction parts generalizing offset with
  | nil => cases kept
  | cons part rest ih =>
    rw [before_cons, after_cons]
    rcases keeps_cons kept with ⟨inside, isKept⟩ | ⟨later, rfl, keptLater⟩
    · rw [moved_cons_of_lt inside, Part.new_eq_old isKept, Text.byteAt?_append_of_lt inside,
        Text.byteAt?_append_of_lt inside]
    · rw [moved_cons_add, Text.byteAt?_append_add, Text.byteAt?_append_add,
        ih keptLater]

/-- A byte in front of further parts moves as without them. -/
theorem moved_append_of_lt (inside : offset < (before front).width) (rest : Alteration) :
    moved (front ++ rest) offset = moved front offset := by
  induction front generalizing offset with
  | nil => simp at inside
  | cons part front ih =>
    rcases Nat.lt_or_ge offset part.old.width with here | behind
    · rw [List.cons_append, moved_cons_of_lt here, moved_cons_of_lt here]
    · obtain ⟨later, rfl⟩ := Nat.exists_eq_add_of_le behind
      rw [before_cons, Text.width_append] at inside
      rw [List.cons_append, moved_cons_add, moved_cons_add, ih (by omega)]

/-- A byte behind some parts moves as it does without them. -/
theorem moved_append_add (front rest : Alteration) (offset : Nat) :
    moved (front ++ rest) ((before front).width + offset) =
      (after front).width + moved rest offset := by
  induction front with
  | nil => simp
  | cons part front ih =>
    rw [before_cons, after_cons, Text.width_append, Text.width_append, List.cons_append,
      Nat.add_assoc, moved_cons_add, ih, Nat.add_assoc]

/-! ### Alterations at seams -/

/-- One text ends where another starts: at a seam, or with nothing left. -/
def Joined (front rest : Text) : Prop := rest = [] ∨ Text.Seam front rest

/-- The parts meet at seams before and afterwards. -/
def Seamless : Alteration → Prop
  | [] => True
  | part :: rest => Joined part.old (before rest) ∧ Joined part.new (after rest) ∧ Seamless rest

/-- Behind a text that is code to its end, anything may follow. -/
theorem Joined.of_after {front : Text} (settled : Mode.code.after front = .code) (rest : Text) :
    Joined front rest := .inr (.of_after_eq settled rest)

/-- What is joined to a text leaves the kinds of its bytes. -/
theorem Joined.kindAt?_front {front rest : Text} (joined : Joined front rest)
    (inside : offset < front.width) :
    (front ++ rest).layout.kindAt? offset = front.layout.kindAt? offset := by
  rcases joined with rfl | seam
  · rw [List.append_nil]
  · exact seam.kindAt?_front inside

/-- Behind a joint every byte has the kind it has in the rest alone. -/
theorem Joined.kindAt?_rest {front rest : Text} (joined : Joined front rest)
    (inside : offset < rest.width) :
    (front ++ rest).layout.kindAt? (front.width + offset) = rest.layout.kindAt? offset := by
  rcases joined with rfl | seam
  · simp at inside
  · exact seam.kindAt?_rest inside

/-- The chosen characters of code are those of the two sides. -/
theorem Joined.visible {front rest : Text} (joined : Joined front rest) (keep : Char → Bool)
    (offset : Nat) :
    Mode.code.visible keep offset (front ++ rest) =
      Mode.code.visible keep offset front ++
        Mode.code.visible keep (offset + front.width) rest := by
  rcases joined with rfl | seam
  · simp [Mode.visible]
  · exact seam.visible keep offset

/-- Two joints in a row are one: a text may be joined to what stands in front of the joint before
it. An empty text in the middle is the case apart. -/
theorem Joined.append {front middle rest : Text} (first : Joined front (middle ++ rest))
    (second : Joined middle rest) : Joined (front ++ middle) rest := by
  rcases second with empty | seam
  · exact .inl empty
  · by_cases absent : middle = []
    · subst absent
      simpa using first
    · rcases first with empty | seam'
      · exact .inl (List.append_eq_nil_iff.mp empty).2
      · right
        have same : Mode.code.after (front ++ middle) = Mode.code.after middle := by
          rw [Mode.after_append]
          exact Mode.after_of_resumes seam'.resumes absent
        exact ⟨by rw [same]; exact seam.inside, by rw [same]; exact seam.resumes⟩

/-- A joint needs only what stands next to it. -/
theorem Joined.of_append {front middle rest : Text} (joined : Joined front (middle ++ rest)) :
    Joined front middle := by
  by_cases absent : middle = []
  · exact .inl absent
  · obtain ⟨c, middle, rfl⟩ := List.exists_cons_of_ne_nil absent
    rcases joined with empty | seam
    · simp at empty
    · exact .inr ⟨seam.inside, seam.resumes⟩

/-- A kept byte keeps its kind in a seamless alteration, because the regions on the two sides of
every seam are those of the parts alone. -/
theorem kindAt?_moved (seamless : Seamless parts) (kept : parts.keeps offset = true) :
    parts.after.layout.kindAt? (parts.moved offset) = parts.before.layout.kindAt? offset := by
  induction parts generalizing offset with
  | nil => cases kept
  | cons part rest ih =>
    obtain ⟨old, new, seamless⟩ := seamless
    rw [before_cons, after_cons]
    rcases keeps_cons kept with ⟨inside, isKept⟩ | ⟨later, rfl, keptLater⟩
    · rw [moved_cons_of_lt inside, old.kindAt?_front inside]
      rw [Part.new_eq_old isKept] at new ⊢
      exact new.kindAt?_front inside
    · obtain ⟨inside, inside'⟩ := bounds_of_keeps keptLater
      rw [moved_cons_add, old.kindAt?_rest inside, new.kindAt?_rest inside',
        ih seamless keptLater]

/-- A seamless alteration can be split into two seamless ones. -/
theorem Seamless.of_append (seamless : Seamless (front ++ rest)) :
    Seamless front ∧ Seamless rest ∧ Joined (before front) (before rest) ∧
      Joined (after front) (after rest) := by
  induction front with
  | nil => exact ⟨trivial, seamless, .of_after rfl _, .of_after rfl _⟩
  | cons part front ih =>
    rw [List.cons_append] at seamless
    obtain ⟨old, new, further⟩ := seamless
    obtain ⟨seamless, seamless', olds, news⟩ := ih further
    rw [before_append] at old
    rw [after_append] at new
    exact ⟨⟨old.of_append, new.of_append, seamless⟩, seamless', old.append olds, new.append news⟩

/-- Parts each of which, read as code, is code to its end. -/
def Settled (parts : Alteration) : Prop :=
  ∀ part ∈ parts, Mode.code.after part.old = .code ∧ Mode.code.after part.new = .code

/-- Parts are settled when each is code to its end, old and new. -/
@[simp] theorem settled_cons : Settled (part :: rest) ↔
    (Mode.code.after part.old = .code ∧ Mode.code.after part.new = .code) ∧ Settled rest :=
  List.forall_mem_cons

/-- An alteration without parts is settled. -/
@[simp] theorem settled_nil : Settled [] := fun _ listed => nomatch listed

namespace Settled

/-- Settled parts may be put one behind the other. -/
theorem append (settled : Settled front) (settled' : Settled rest) : Settled (front ++ rest) :=
  List.forall_mem_append.mpr ⟨settled, settled'⟩

/-- The text before settled parts is read as code to its end. -/
theorem after_before (settled : Settled parts) : Mode.code.after parts.before = .code := by
  induction parts with
  | nil => rfl
  | cons part rest ih =>
    obtain ⟨⟨old, -⟩, behind⟩ := settled_cons.mp settled
    rw [before_cons, Mode.after_append, old, ih behind]

/-- The text after settled parts is read as code to its end. -/
theorem after_after (settled : Settled parts) : Mode.code.after parts.after = .code := by
  induction parts with
  | nil => rfl
  | cons part rest ih =>
    obtain ⟨⟨-, new⟩, behind⟩ := settled_cons.mp settled
    rw [after_cons, Mode.after_append, new, ih behind]

/-- Behind such parts, anything may follow. -/
theorem seamless_append (settled : Settled front) (seamless : Seamless rest) :
    Seamless (front ++ rest) := by
  induction front with
  | nil => exact seamless
  | cons part front ih =>
    obtain ⟨⟨old, new⟩, behind⟩ := settled_cons.mp settled
    exact ⟨.of_after old _, .of_after new _, ih behind⟩

end Settled

end Alteration

/-! ### The brackets of an altered text -/

namespace Mode

variable {mode : Mode} {keep : Char → Bool} {text : Text} {placed : Nat × Char}

/-- What is visible stands further on when the text does. -/
theorem visible_add (offset start : Nat) (text : Text) :
    mode.visible keep (start + offset) text =
      (mode.visible keep offset text).map fun (place, c) => (start + place, c) := by
  induction text generalizing mode offset with
  | nil => rfl
  | cons c rest ih =>
    rw [visible, visible, List.map_append, Nat.add_assoc, ih]
    split <;> rfl

/-- What is visible stands within the text that is searched, at or behind the offset that the text
starts at. -/
theorem of_mem_visible {offset : Nat} (member : placed ∈ mode.visible keep offset text) :
    offset ≤ placed.1 ∧ placed.1 < offset + text.width := by
  induction text generalizing mode offset with
  | nil => simp [visible] at member
  | cons c rest ih =>
    have positive : 0 < c.utf8Size := c.utf8Size_pos
    rw [visible, List.mem_append] at member
    rw [Text.width_cons]
    rcases member with here | later
    · split at here
      · obtain rfl := List.mem_singleton.mp here
        simp only
        omega
      · simp at here
    · have bounds := ih later
      omega

/-- What is visible is listed from left to right, each character once, since every character has a
width of its own. -/
theorem pairwise_visible (mode : Mode) (keep : Char → Bool) (offset : Nat) (text : Text) :
    (mode.visible keep offset text).Pairwise fun placed later => placed.1 < later.1 := by
  induction text generalizing mode offset with
  | nil => exact .nil
  | cons c rest ih =>
    have positive : 0 < c.utf8Size := c.utf8Size_pos
    rw [visible, List.pairwise_append]
    refine ⟨by split <;> simp, ih _ _, ?_⟩
    intro placed here later behind
    have bounds := of_mem_visible behind
    split at here
    · obtain rfl := List.mem_singleton.mp here
      simp only
      omega
    · simp at here

end Mode

namespace Alteration

variable {keep : Char → Bool} {parts front middle rest : Alteration} {offset : Nat} {c : Char}

/-- None of the chosen characters is added or dropped. -/
def Spares (keep : Char → Bool) (parts : Alteration) : Prop :=
  ∀ part ∈ parts, part.isKept = false → ∀ c ∈ part.old ++ part.new, keep c = false

/-- An alteration without parts spares every character. -/
@[simp] theorem spares_nil (keep : Char → Bool) : Spares keep [] := by
  simp [Spares]

/-- A kept part adds and drops nothing. -/
@[simp] theorem spares_kept {body : Text} :
    Spares keep (.kept body :: rest) ↔ Spares keep rest := by
  simp [Spares, Part.isKept]

/-- An added part spares the characters that it does not hold. -/
@[simp] theorem spares_added {body : Text} : Spares keep (.added body :: rest) ↔
    (∀ c ∈ body, keep c = false) ∧ Spares keep rest := by
  simp [Spares, Part.isKept, Part.old, Part.new]

/-- A dropped part spares the characters that it does not hold. -/
@[simp] theorem spares_dropped {body : Text} : Spares keep (.dropped body :: rest) ↔
    (∀ c ∈ body, keep c = false) ∧ Spares keep rest := by
  simp [Spares, Part.isKept, Part.old, Part.new]

/-- Chosen characters that are neither added nor dropped are visible after the alteration exactly
where they have moved to. The induction is on the parts, which meet at seams. -/
theorem visible_after (seamless : Seamless parts) (spares : parts.Spares keep) :
    Mode.code.visible keep 0 parts.after =
      (Mode.code.visible keep 0 parts.before).map fun (place, c) => (parts.moved place, c) := by
  induction parts with
  | nil => rfl
  | cons part parts ih =>
    obtain ⟨old, new, seamless⟩ := seamless
    have same : Mode.code.visible keep 0 part.new =
        (Mode.code.visible keep 0 part.old).map fun (place, c) =>
          (moved (part :: parts) place, c) := by
      cases isKept : part.isKept with
      | true =>
        rw [Part.new_eq_old isKept, ← List.map_id (Mode.code.visible keep 0 part.old), List.map_map]
        apply List.map_congr_left
        rintro ⟨place, c⟩ member
        obtain ⟨-, inside⟩ := Mode.of_mem_visible member
        simp [moved_cons_of_lt (show place < part.old.width by simpa using inside)]
      | false =>
        have absent := spares part (.head _) isKept
        rw [Mode.visible_eq_nil 0 fun c member => absent c (List.mem_append_right _ member),
          Mode.visible_eq_nil 0 fun c member => absent c (List.mem_append_left _ member)]
        rfl
    have further := ih seamless fun other member => spares other (.tail _ member)
    rw [before_cons, after_cons, old.visible, new.visible, List.map_append, same, Nat.zero_add,
      Nat.zero_add, ← Nat.add_zero part.new.width, Mode.visible_add, ← Nat.add_zero part.old.width,
      Mode.visible_add, further, List.map_map, List.map_map]
    congr 1
    apply List.map_congr_left
    rintro ⟨place, c⟩ -
    simp [moved_cons_add]

/-- Where only the middle of the parts adds chosen characters and drops none, they stand
between those that move with the text in front and behind. -/
theorem visible_around (seamless : Seamless (front ++ middle ++ rest))
    (sparesFront : front.Spares keep) (sparesRest : rest.Spares keep)
    (nothing : Mode.code.visible keep 0 middle.before = []) :
    let ahead := Mode.code.visible keep 0 front.before
    let behind := Mode.code.visible keep (before (front ++ middle)).width rest.before
    let move : Nat × Char → Nat × Char := fun (place, c) =>
      (moved (front ++ middle ++ rest) place, c)
    Mode.code.visible keep 0 (before (front ++ middle ++ rest)) = ahead ++ behind ∧
      Mode.code.visible keep 0 (after (front ++ middle ++ rest)) =
        ahead.map move ++ Mode.code.visible keep front.after.width middle.after ++
          behind.map move := by
  intro ahead behind move
  obtain ⟨seamless', seamlessRest, olds, news⟩ := seamless.of_append
  obtain ⟨seamlessFront, -, olds', news'⟩ := seamless'.of_append
  have nothing' : Mode.code.visible keep front.before.width middle.before = [] := by
    rw [← Nat.add_zero front.before.width, Mode.visible_add, nothing]
    rfl
  have front_eq : Mode.code.visible keep 0 front.after = ahead.map move := by
    rw [visible_after seamlessFront sparesFront]
    apply List.map_congr_left
    rintro ⟨place, c⟩ member
    have inside : place < front.before.width := by simpa using (Mode.of_mem_visible member).2
    simp only [move]
    rw [List.append_assoc, moved_append_of_lt inside]
  have rest_eq : Mode.code.visible keep (after (front ++ middle)).width rest.after =
      behind.map move := by
    simp only [behind]
    rw [← Nat.add_zero (after _).width, Mode.visible_add, ← Nat.add_zero (before _).width,
      Mode.visible_add, visible_after seamlessRest sparesRest, List.map_map, List.map_map]
    apply List.map_congr_left
    rintro ⟨place, c⟩ -
    simp only [move, Function.comp_apply, moved_append_add]
  constructor
  · rw [before_append _ rest, olds.visible, before_append front, olds'.visible, Nat.zero_add,
      nothing', List.append_nil, Nat.zero_add, ← before_append]
  · rw [after_append _ rest, news.visible, after_append front, news'.visible, front_eq,
      Nat.zero_add, Nat.zero_add, ← after_append, rest_eq]

/-- A chosen character that no part drops is kept by the alteration. It stands in some part, and
only a kept part can hold it. -/
theorem keeps_of_mem_visible (seamless : Seamless parts)
    (undropped : ∀ part ∈ parts, part.isKept = false → ∀ c ∈ part.old, keep c = false)
    (member : (offset, c) ∈ Mode.code.visible keep 0 parts.before) :
    parts.keeps offset = true := by
  induction parts generalizing offset with
  | nil => simp [Mode.visible] at member
  | cons part rest ih =>
    obtain ⟨old, -, seamless⟩ := seamless
    rw [before_cons, old.visible, List.mem_append, Nat.zero_add] at member
    rcases member with here | later
    · have inside : offset < part.old.width := by simpa using (Mode.of_mem_visible here).2
      rw [keeps_cons_of_lt inside]
      cases isKept : part.isKept with
      | true => rfl
      | false =>
        rw [Mode.visible_eq_nil 0 (undropped part (.head _) isKept)] at here
        simp at here
    · rw [← Nat.add_zero part.old.width, Mode.visible_add] at later
      obtain ⟨⟨place, d⟩, listed, same⟩ := List.mem_map.mp later
      obtain ⟨rfl, rfl⟩ := Prod.mk.inj same
      rw [keeps_cons_add]
      apply ih seamless _ listed
      exact fun other member => undropped other (.tail _ member)

end Alteration

namespace Text

variable {text front rest : Text}

/-- A literal lacks its end exactly when some byte of the text is of that kind, since every region
has at least one byte. -/
theorem unterminated?_eq_none_iff :
    text.unterminated? = none ↔
      ∀ offset < text.width, text.layout.kindAt? offset ≠ some .unterminated := by
  rw [unterminated?, Option.map_eq_none_iff, List.find?_eq_none]
  constructor
  · intro none offset _ kind
    obtain ⟨region, found, unterminated⟩ := Option.map_eq_some_iff.mp kind
    exact none region (Layout.of_regionAt? found).1 (by simpa using unterminated)
  · intro none region member unterminated
    have kind : region.kind = .unterminated := by simpa using unterminated
    obtain ⟨nonempty, within⟩ := (text.tiling_regions.suits region member).bounds (by simp [kind])
    have found : text.layout.regionAt? region.start = some region :=
      Layout.regionAt?_of_mem text.pairwise_regions member (Nat.le_refl _) nonempty
    apply none region.start (by omega)
    rw [Layout.kindAt?, found, Option.map_some, kind]

/-- Two sides of a joint have their literals each for itself, so that the whole text has an open one
exactly if one of its sides has. -/
theorem unterminated?_append (joined : Alteration.Joined front rest) :
    (front ++ rest).unterminated? = none ↔
      front.unterminated? = none ∧ rest.unterminated? = none := by
  simp only [unterminated?_eq_none_iff, width_append]
  constructor
  · intro none
    constructor
    · intro offset inside
      rw [← joined.kindAt?_front inside]
      exact none offset (by omega)
    · intro offset inside
      rw [← joined.kindAt?_rest inside]
      exact none (front.width + offset) (by omega)
  · rintro ⟨ahead, behind⟩ offset inside
    rcases Nat.lt_or_ge offset front.width with within | beyond
    · rw [joined.kindAt?_front within]
      exact ahead offset within
    · obtain ⟨later, rfl⟩ := Nat.exists_eq_add_of_le beyond
      rw [joined.kindAt?_rest (by omega)]
      exact behind later (by omega)

end Text

namespace Bracket

/-- What stays open of a text, wherever the text starts. -/
theorem unclosedFrom_visible (kind : Bracket) (keep : Char → Bool) (start : Nat) (text : Text) :
    kind.unclosedFrom [] (Mode.code.visible keep start text) =
      (kind.unclosedFrom [] (Mode.code.visible keep 0 text)).map (start + ·) := by
  have moved := @Mode.visible_add .code keep 0 start text
  rw [Nat.add_zero] at moved
  rw [moved, ← unclosedFrom_map (start + ·)]
  rfl

end Bracket

namespace Alteration

variable {kind : Bracket} {parts front middle rest : Alteration} {opened closed : Nat}

/-- Brackets neither added nor dropped are paired as before. -/
theorem pairs_after (seamless : Seamless parts) (spares : parts.Spares kind.isSide) :
    kind.pairs parts.after.codeChars =
      (kind.pairs parts.before.codeChars).map fun (opened, closed) =>
        (parts.moved opened, parts.moved closed) := by
  rw [Bracket.pairs_codeChars, Bracket.pairs_codeChars, visible_after seamless spares,
    ← Bracket.pairsFrom_map, List.map_nil]

/-- A pair of brackets that is added in the middle of the parts is a pair, and all others are
paired as before. -/
theorem mem_pairs_around_iff (seamless : Seamless (front ++ middle ++ rest))
    (sparesFront : front.Spares kind.isSide) (sparesRest : rest.Spares kind.isSide)
    (nothing : Mode.code.visible kind.isSide 0 middle.before = [])
    (added : Mode.code.visible kind.isSide front.after.width middle.after =
      [(opened, kind.opener), (closed, kind.closer)]) (pair : Nat × Nat) :
    pair ∈ kind.pairs (after (front ++ middle ++ rest)).codeChars ↔
      pair = (opened, closed) ∨
        ∃ old ∈ kind.pairs (before (front ++ middle ++ rest)).codeChars,
          (moved (front ++ middle ++ rest) old.1, moved (front ++ middle ++ rest) old.2) =
            pair := by
  obtain ⟨shown, shown'⟩ := visible_around seamless sparesFront sparesRest nothing
  have paired (stack : List Nat) :
      kind.pairsFrom stack [(opened, kind.opener), (closed, kind.closer)] = [(opened, closed)] ∧
        kind.unclosedFrom stack [(opened, kind.opener), (closed, kind.closer)] = stack := by
    rw [Bracket.pairsFrom_cons_opener, Bracket.pairsFrom_cons_closer]
    simp [Bracket.pairsFrom, Bracket.unclosedFrom, kind.opener_ne_closer.symm]
  have opens := @Bracket.unclosedFrom_map kind (moved (front ++ middle ++ rest)) []
    (Mode.code.visible kind.isSide 0 front.before)
  have pairs (stack : List Nat) := @Bracket.pairsFrom_map kind (moved (front ++ middle ++ rest))
    stack
  rw [List.map_nil] at opens
  rw [Bracket.pairs_codeChars, Bracket.pairs_codeChars, shown, shown', added,
    Bracket.pairsFrom_append, Bracket.pairsFrom_append, Bracket.pairsFrom_append,
    Bracket.unclosedFrom_append, (paired _).1, (paired _).2, opens, pairs, ← List.map_nil, pairs]
  simp only [List.mem_append, List.mem_map, List.mem_singleton]
  constructor
  · rintro ((⟨old, ahead, rfl⟩ | rfl) | ⟨old, behind, rfl⟩)
    · exact .inr ⟨old, .inl ahead, rfl⟩
    · exact .inl rfl
    · exact .inr ⟨old, .inr behind, rfl⟩
  · rintro (rfl | ⟨old, ahead | behind, rfl⟩)
    · exact .inl (.inr rfl)
    · exact .inl (.inl ⟨old, ahead, rfl⟩)
    · exact .inr ⟨old, behind, rfl⟩

end Alteration

/-- Two brackets go together when they are a pair of some kind. -/
theorem Text.matchingClose?_eq_some_iff_mem_pairs {text : Text} {opened closed : Nat} :
    text.layout.matchingClose? opened = some closed ↔
      ∃ kind : Bracket, (opened, closed) ∈ kind.pairs text.codeChars := by
  rw [matchingClose?_eq_some_iff]
  simp only [mem_pairs_codeChars_iff]

/-- The opener tells of which kind. -/
theorem Text.mem_pairs_iff_matchingClose? {text : Text} {kind : Bracket} {opened closed : Nat} :
    (opened, closed) ∈ kind.pairs text.codeChars ↔
      text.codeByte? opened = some kind.opener ∧
        text.layout.matchingClose? opened = some closed := by
  rw [mem_pairs_codeChars_iff, matchingClose?_eq_some_iff]
  constructor
  · intro encloses
    exact ⟨encloses.opens, kind, encloses⟩
  · rintro ⟨opens, other, encloses⟩
    obtain rfl : other = kind := Bracket.opener_injective
      (Option.some.inj (encloses.opens.symm.trans opens))
    exact encloses

end ScriptCheck
