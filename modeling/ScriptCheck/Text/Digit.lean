import ScriptCheck.Text.Stretches

/-!
# Decimal digits

The digits of every script that writes decimal numbers. A number is read from the
ASCII ones only; the others still count as digits where a pattern asks for one.
-/

namespace ScriptCheck

/-- Decimal digits outside ASCII. -/
def digitStretches : List Nat :=
  [1632, 10, 134, 10, 198, 10, 412, 10, 118, 10, 118, 10, 118, 10, 118, 10, 118, 10, 118, 10, 118,
   10, 118, 10, 118, 10, 96, 10, 118, 10, 70, 10, 278, 10, 70, 10, 1862, 10, 38, 10, 300, 10, 128,
   10, 166, 10, 6, 10, 182, 10, 86, 10, 134, 10, 6, 10, 35270, 10, 678, 10, 38, 10, 198, 10, 22, 10,
   86, 10, 406, 10, 21270, 10, 1414, 10, 2182, 10, 6, 10, 796, 10, 128, 10, 60, 10, 144, 10, 278,
   10, 342, 10, 118, 10, 374, 10, 102, 10, 6, 20, 76, 10, 422, 10, 102, 10, 662, 10, 86, 10, 246,
   10, 70, 10, 422, 10, 16854, 10, 2342, 10, 86, 10, 134, 10, 534, 10, 24438, 10, 2772, 50, 2368,
   10, 422, 10, 502, 10, 247, 10, 853, 10, 4758, 10]

/-- Whether a character is a decimal digit of some script. -/
def isDecimalDigit (c : Char) : Bool :=
  c.isDigit || (128 ≤ c.toNat && inStretches digitStretches c)

end ScriptCheck
