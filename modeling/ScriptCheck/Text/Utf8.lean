import ScriptCheck.Text.Basic

/-!
# Bytes and texts

Files and streams hold bytes. They are a text when they are well-formed UTF-8.
-/

namespace ScriptCheck

abbrev Bytes := List UInt8

namespace Text

/-- The bytes of a text, character by character. -/
def encode (text : Text) : Bytes := text.flatMap String.utf8EncodeChar

/-- The text that some bytes encode, if they are well-formed. -/
def decode? (bytes : Bytes) : Option Text :=
  (String.fromUTF8? ⟨bytes.toArray⟩).map String.toList

end Text

end ScriptCheck
