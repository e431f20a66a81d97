import Mathlib.Data.List.Induction
import ScriptCheck.Proofs.ByteScan
import ScriptCheck.Proofs.Lines

/-!
# The lines of a stream

Bytes are a text when they are the UTF-8 form of one. A stream is cut into lines by its
bytes, before any of them is known to be a text. That makes no difference: a newline and a
carriage return are no part of any other character, so that the lines of a text are texts.
What stands behind a newline is cut into lines as if it stood alone.
-/

namespace ScriptCheck

namespace Text

/-- The bytes of a text as a string are those it is encoded with. -/
theorem toByteArray_ofList (text : Text) :
    (String.ofList text).toByteArray = ⟨(encode text).toArray⟩ :=
  ByteArray.ext List.data_toByteArray

/-- Bytes that are a text are the bytes of that text. -/
theorem encode_of_decode? {bytes : Bytes} {text : Text} (decoded : decode? bytes = some text) :
    encode text = bytes := by
  obtain ⟨string, read, rfl⟩ := Option.map_eq_some_iff.mp decoded
  rw [String.fromUTF8?] at read
  split at read
  · cases read
    have stored := toByteArray_ofList (String.fromUTF8 _ ‹_›).toList
    rw [String.ofList_toList] at stored
    simpa [String.fromUTF8] using (congrArg (fun array => array.data.toList) stored).symm
  · cases read

/-- The bytes of a text are that text. -/
theorem decode?_encode (text : Text) : decode? (encode text) = some text := by
  rw [decode?, ← toByteArray_ofList, String.fromUTF8?, dif_pos (String.ofList text).isValidUTF8]
  exact congrArg some String.toList_ofList

/-- Texts with the same bytes are the same. -/
theorem encode_injective {text other : Text} (same : encode text = encode other) :
    text = other := by
  have decoded := decode?_encode text
  rw [same, decode?_encode] at decoded
  exact (Option.some.inj decoded).symm

/-- A byte of a text that is an ASCII character is a character of the text. -/
theorem mem_of_mem_encode {text : Text} {byte : UInt8} {c : Char} (mem : byte ∈ encode text)
    (code : Char.ofUInt8 byte = c) (ascii : c.utf8Size = 1) : c ∈ text := by
  obtain ⟨d, listed, mem⟩ := List.mem_flatMap.mp mem
  rwa [← ((isByteOf_of_mem mem).eq_iff ascii).mp code]

end Text

namespace Bytes

/-- There is one way to cut a stream at its first newline. The induction is on the part in front of
it. -/
theorem append_newline_inj {front front' rest rest' : Bytes} (single : 10 ∉ front)
    (single' : 10 ∉ front') (same : front ++ 10 :: rest = front' ++ 10 :: rest') :
    front = front' ∧ rest = rest' := by
  induction front generalizing front' with
  | nil =>
    cases front' with
    | nil => exact ⟨rfl, (List.cons.inj same).2⟩
    | cons byte front' => exact absurd ((List.cons.inj same).1 ▸ List.mem_cons_self) single'
  | cons byte front ih =>
    cases front' with
    | nil => exact absurd ((List.cons.inj same).1 ▸ List.mem_cons_self) single
    | cons byte' front' =>
      obtain ⟨rfl, tails⟩ := List.cons.inj same
      obtain ⟨rfl, rfl⟩ := ih (List.not_mem_of_not_mem_cons single)
        (List.not_mem_of_not_mem_cons single') tails
      exact ⟨rfl, rfl⟩

/-- What stands behind a newline is cut into lines as if it stood alone. The induction is on the
length of the front. -/
theorem lines_append {front : Bytes} (ends : ∀ byte ∈ front.getLast?, byte = 10) (rest : Bytes) :
    lines (front ++ rest) = lines front ++ lines rest := by
  induction length : front.length using Nat.strongRecOn generalizing front with
  | ind size ih =>
    by_cases mem : 10 ∈ front
    · obtain ⟨line, others, rfl, single⟩ := List.eq_append_cons_of_mem mem
      have shorter : others.length < size := by
        rw [← length, List.length_append, List.length_cons]
        omega
      have ends' : ∀ byte ∈ others.getLast?, byte = 10 := by
        intro byte last
        cases others with
        | nil => cases last
        | cons second others => exact ends byte (by simpa using last)
      rw [List.append_assoc, List.cons_append, lines_line single, lines_line single,
        ih _ shorter ends' rfl, List.cons_append]
    · cases last : front.getLast? with
      | none =>
        rw [List.getLast?_eq_none_iff.mp last]
        rfl
      | some byte =>
        rw [ends byte last] at last
        exact absurd (List.mem_of_getLast? last) mem

end Bytes

namespace Text

/-- A text without newlines has no byte that is one. -/
theorem newline_not_mem_encode {text : Text} (single : '\n' ∉ text) : 10 ∉ encode text :=
  fun mem => single (mem_of_mem_encode mem rfl rfl)

/-- Without its carriage return a line of a text is still a text, as the carriage return is a
character of its own. -/
theorem exists_chomp_encode (text : Text) : ∃ line, Bytes.chomp (encode text) = encode line := by
  rw [Bytes.chomp, LineMarks.chomp]
  split
  · rename_i returned
    cases text using List.reverseRecOn with
    | nil => cases returned
    | append_singleton front c =>
      obtain ⟨last, found⟩ : ∃ last, (encode [c]).getLast? = some last :=
        Option.isSome_iff_exists.mp (by simp [encode_ne_nil])
      rw [encode_append, List.getLast?_append, found, Option.some_or, Option.some_inj] at returned
      have listed : '\r' ∈ [c] :=
        mem_of_mem_encode (List.mem_of_getLast? (returned ▸ found)) rfl rfl
      rw [← List.mem_singleton.mp listed, encode_append]
      exact ⟨front, List.dropLast_concat⟩
  · exact ⟨text, rfl⟩

/-- The lines of a text are texts, because newlines are characters of their own and cut no other
one. -/
theorem decode?_isSome_of_mem_lines {text : Text} {line : Bytes}
    (mem : line ∈ Bytes.lines (encode text)) : (decode? line).isSome = true := by
  induction length : text.length using Nat.strongRecOn generalizing text with
  | ind size ih =>
    by_cases broken : '\n' ∈ text
    · obtain ⟨front, rest, rfl, single⟩ := List.eq_append_cons_of_mem broken
      have shorter : rest.length < size := by
        rw [← length, List.length_append, List.length_cons]
        omega
      rw [encode_append, show encode ('\n' :: rest) = 10 :: encode rest from rfl,
        Bytes.lines_line (newline_not_mem_encode single)] at mem
      rcases List.mem_cons.mp mem with rfl | later
      · obtain ⟨line, same⟩ := exists_chomp_encode front
        rw [same, decode?_encode]
        rfl
      · exact ih _ shorter later rfl
    · cases text with
      | nil => cases mem
      | cons c rest =>
        rw [Bytes.lines_last (newline_not_mem_encode broken) (encode_ne_nil c rest),
          List.mem_singleton] at mem
        rw [mem, decode?_encode]
        rfl

end Text

end ScriptCheck
