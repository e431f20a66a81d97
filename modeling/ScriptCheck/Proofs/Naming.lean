import ScriptCheck.Proofs.CodeView
import ScriptCheck.Proofs.Matching
import ScriptCheck.Rule.Phrase

/-!
# Names

A name starts with a letter, an underscore or a dollar sign, and goes on with these, with
digits and with the word characters of any script.
-/

namespace ScriptCheck

open Pattern

namespace Phrase

/-- Whether a text is a name. -/
def isName : Text → Bool
  | [] => false
  | c :: rest => startsName c && rest.all continuesName

/-- What may start a name may continue one. -/
theorem continuesName_of_startsName {c : Char} (starts : startsName c = true) :
    continuesName c = true := by
  simp only [startsName, Bool.or_eq_true, beq_iff_eq] at starts
  rcases starts with (alpha | rfl) | rfl
  · simp [continuesName, isWordChar, Char.isAlphanum, alpha]
  · decide
  · decide

/-- All characters of a name may continue one, the first too. -/
theorem continuesName_of_isName {name : Text} (named : isName name = true) :
    ∀ c ∈ name, continuesName c = true := by
  cases name with
  | nil => cases named
  | cons first rest =>
    simp only [isName, Bool.and_eq_true, List.all_eq_true] at named
    exact List.forall_mem_cons.mpr ⟨continuesName_of_startsName named.1, named.2⟩

/-- A name is not empty. -/
theorem ne_nil_of_isName {name : Text} (named : isName name = true) : name ≠ [] := by
  rintro rfl
  cases named

/-- A character that may continue a name differs from all others. -/
theorem ne_of_continuesName {c d : Char} (part : continuesName c = true)
    (other : continuesName d = false) : c ≠ d := by
  rintro rfl
  rw [part] at other
  cases other

/-- A name neither opens nor closes a literal or comment. -/
theorem isPlain_of_continuesName {c : Char} (part : continuesName c = true) :
    Mode.isPlain c = true := by
  have other (d : Char) (mark : continuesName d = false) : c ≠ d := ne_of_continuesName part mark
  refine Mode.isPlain_iff.mpr ⟨?_, other '/' (by decide), other '*' (by decide),
    other '\n' (by decide), other '\\' (by decide)⟩
  simp [isQuote, other '\x22' (by decide), other '\x27' (by decide),
    other backquote (by decide)]

/-- No blank is part of a name. -/
theorem isBlank_of_continuesName {c : Char} (part : continuesName c = true) :
    isBlank c = false := by
  let codes := [9, 10, 11, 12, 13, 32, 0x85, 0xA0, 0x1680, 0x2000, 0x2001, 0x2002, 0x2003, 0x2004,
    0x2005, 0x2006, 0x2007, 0x2008, 0x2009, 0x200A, 0x2028, 0x2029, 0x202F, 0x205F, 0x3000]
  have apart : (codes.all fun code => !continuesName (Char.ofNat code)) = true := by decide +kernel
  refine Bool.eq_false_iff.mpr fun blank => ?_
  have listed : c.toNat ∈ codes := by
    simp only [isBlank, Bool.or_eq_true, Bool.and_eq_true, decide_eq_true_eq, beq_iff_eq] at blank
    simp only [codes, List.mem_cons, List.not_mem_nil, or_false]
    omega
  have other := List.all_eq_true.mp apart c.toNat listed
  rw [Char.ofNat_toNat, part] at other
  cases other

/-- A name that starts afresh is a given one, if no other starts around it, so that a search for
fresh names finds only that. -/
theorem start_unique {front name rest ahead after : Text} {c : Char}
    (same : front ++ (name ++ rest) = ahead ++ c :: after) (starts : startsName c = true)
    (clear : ∀ d ∈ ahead.getLast?, continuesName d = false)
    (parts : ∀ d ∈ name, continuesName d = true) (quiet : ∀ d ∈ front, startsName d = false)
    (quiet' : ∀ d ∈ rest, startsName d = false) : ahead = front := by
  have other {others : Text} (quiet : ∀ d ∈ others, startsName d = false) : c ∉ others := by
    intro listed
    rw [quiet c listed] at starts
    cases starts
  rcases List.append_eq_append_iff.mp same with ⟨inner, rfl, split⟩ | ⟨inner, rfl, split⟩
  · rcases List.append_eq_append_iff.mp split with ⟨more, rfl, split'⟩ | ⟨more, rfl, split'⟩
    · exact absurd (by simp [split']) (other quiet')
    · rcases List.eq_nil_or_concat inner with rfl | ⟨inner, last, rfl⟩
      · simp
      · have part := parts last (by simp)
        rw [clear last (by simp)] at part
        cases part
  · cases inner with
    | nil => simp
    | cons first inner =>
      obtain ⟨rfl, -⟩ := List.cons.inj split
      exact absurd (by simp) (other quiet)

/-- What fits the pattern of names is a name. -/
theorem fits_name {before body after : Text} {captures : List Capture} :
    name.Fits before body after captures ↔ isName body = true ∧ captures = [] := by
  constructor
  · rintro ⟨front, back, earlier, later, rfl, rfl, ⟨⟨c, starts, rfl⟩, rfl⟩, others, rfl⟩
    simpa [isName, starts] using others
  · rintro ⟨named, rfl⟩
    cases body with
    | nil => cases named
    | cons c rest =>
      simp only [isName, Bool.and_eq_true, List.all_eq_true] at named
      exact ⟨[c], rest, [], [], rfl, rfl, ⟨⟨c, named.1, rfl⟩, rfl⟩, named.2, rfl⟩

/-- What stands in front of a name that starts afresh: nothing, at the start of the text, or a
character that neither continues a name nor selects a member. -/
def Clears (before lead : Text) : Prop :=
  lead = [] ∧ before = [] ∨ ∃ c, (continuesName c = false ∧ c ≠ '.') ∧ lead = [c]

/-- In front of a fresh name is the start or what parts names. -/
theorem fits_freshName {before lead after : Text} {captures : List Capture} :
    freshName.Fits before lead after captures ↔ Clears before lead ∧ captures = [] := by
  simp only [freshName, Fits, Anchor.holdsBetween, List.isEmpty_iff, Clears, Bool.and_eq_true,
    Bool.not_eq_true', bne_iff_ne]
  constructor
  · rintro (⟨rfl, rfl, rfl⟩ | ⟨fresh, rfl⟩)
    · exact ⟨.inl ⟨rfl, rfl⟩, rfl⟩
    · exact ⟨.inr fresh, rfl⟩
  · rintro ⟨⟨rfl, rfl⟩ | fresh, rfl⟩
    · exact .inl ⟨rfl, rfl, rfl⟩
    · exact .inr ⟨fresh, rfl⟩

end Phrase

end ScriptCheck
