import ScriptCheck.Text.Basic
import ScriptCheck.Text.Showable

/-!
# Quoted texts

A text in double quotes, with everything in it made visible: quotes, backslashes and
the usual control characters by a short escape, other characters that cannot be shown
by their code point.
-/

namespace ScriptCheck.Text

/-- A character as it is written inside quotes. -/
def quotedChar (c : Char) : Text :=
  match c with
  | '\x22' => ['\\', '\x22']
  | '\\' => ['\\', '\\']
  | '\n' => ['\\', 'n']
  | '\r' => ['\\', 'r']
  | '\t' => ['\\', 't']
  | '\x00' => ['\\', '0']
  | _ =>
    if isShowable c then [c]
    else ['\\', 'u', '\x7b'] ++ Nat.toDigits 16 c.toNat ++ ['\x7d']

/-- A text in double quotes. -/
def quoted (text : Text) : Text := '\x22' :: text.flatMap quotedChar ++ ['\x22']

end ScriptCheck.Text
