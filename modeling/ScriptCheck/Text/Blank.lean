import ScriptCheck.Text.Basic

/-!
# Blank characters

A character is blank when it has the Unicode property White_Space. Trimming removes
blank characters from one end of a text or from both.
-/

namespace ScriptCheck

/-- The characters of the property White_Space: tab to carriage return, space, next
line, the no-break space, and the spaces and separators of the general blocks. -/
def isBlank (c : Char) : Bool :=
  let code := c.toNat
  (9 ≤ code && code ≤ 13) || code == 32 || code == 0x85 || code == 0xA0 || code == 0x1680 ||
    (0x2000 ≤ code && code ≤ 0x200A) || code == 0x2028 || code == 0x2029 || code == 0x202F ||
    code == 0x205F || code == 0x3000

namespace Text

/-- The text without its leading blank characters. -/
def trimStart (text : Text) : Text := text.dropWhile isBlank

/-- The text without its trailing blank characters. -/
def trimEnd (text : Text) : Text := (text.reverse.dropWhile isBlank).reverse

/-- The text without the blank characters at either end. -/
def trim (text : Text) : Text := text.trimStart.trimEnd

end Text

end ScriptCheck
