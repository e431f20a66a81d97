import ScriptCheck.Number.Binary64

/-!
# Shortest decimals

The decimal with the fewest digits that rounds to a given binary value, and of those
the one nearest to it. The numbers that round to a value reach halfway to its two
neighbours; the ends themselves count when the mantissa is even.
-/

namespace ScriptCheck

/-- The number `digits * 10 ^ exponent`. -/
structure Decimal where
  digits : Nat
  exponent : Int
  deriving DecidableEq, Repr

namespace Binary64

/-- The value and the ends of the numbers that round to it, as multiples of one quarter of
the last place. The lower neighbour of a power of two is only half as far away. -/
def quarters (value : Binary64) : Nat × Nat × Nat :=
  let four := 4 * value.mantissa
  let below := if value.mantissa = Nat.pow 2 52 ∧ leastExponent < value.exponent then 1 else 2
  (four - below, four, four + 2)

/-- A number of quarters over a power of ten, as numerator and denominator. -/
def quartersOver (value : Binary64) (quarters : Nat) (exponent : Int) : Nat × Nat :=
  let (above, below) := scaleDown quarters 1 (2 - value.exponent)
  (above * Nat.pow 10 (-exponent).toNat, below * Nat.pow 10 exponent.toNat)

/-- The largest power of ten that a value other than zero reaches. -/
def magnitude (value : Binary64) : Int :=
  let exponents := (List.range 640).map fun (n : Nat) => (320 : Int) - (n : Int)
  (exponents.find? fun exponent =>
    let (above, below) := value.quartersOver (4 * value.mantissa) exponent
    below ≤ above).getD 0

/-- Whether a multiple of a power of ten rounds to the value. -/
def readsBack (value : Binary64) (digits : Nat) (exponent : Int) : Bool :=
  let (low, _, high) := value.quarters
  let (lowAbove, lowBelow) := value.quartersOver low exponent
  let (highAbove, highBelow) := value.quartersOver high exponent
  if value.mantissa % 2 = 0 then
    lowAbove ≤ digits * lowBelow && digits * highBelow ≤ highAbove
  else
    lowAbove < digits * lowBelow && digits * highBelow < highAbove

/-- The multiple of a power of ten nearest to the value among those next to it that round
to it. -/
def onGrid? (value : Binary64) (exponent : Int) : Option Decimal :=
  let (above, below) := value.quartersOver (4 * value.mantissa) exponent
  let lower := above / below
  match value.readsBack lower exponent, value.readsBack (lower + 1) exponent with
  | true, true => some ⟨nearest above below, exponent⟩
  | true, false => some ⟨lower, exponent⟩
  | false, true => some ⟨lower + 1, exponent⟩
  | false, false => none

/-- Move trailing zeros of the digits into the exponent; at most `bound` of them. -/
def stripZeros : Nat → Decimal → Decimal
  | 0, decimal => decimal
  | bound + 1, decimal =>
    if decimal.digits % 10 = 0 ∧ decimal.digits ≠ 0 then
      stripZeros bound ⟨decimal.digits / 10, decimal.exponent + 1⟩
    else
      decimal

/-- The shortest decimal that rounds to a value. Seventeen digits are always enough. -/
def shortest (value : Binary64) : Decimal :=
  if value.mantissa = 0 then
    ⟨0, 0⟩
  else
    let magnitude := value.magnitude
    let found := (List.range 17).findSome? fun (more : Nat) =>
      value.onGrid? (magnitude - (more : Int))
    stripZeros 20 (found.getD ⟨0, 0⟩)

end Binary64

end ScriptCheck
