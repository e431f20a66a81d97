/-!
# Binary floating point

Finite values of the 64-bit binary format, without their sign, as exact numbers. A
quotient is rounded to the nearest value; of two equally near ones the one with an even
mantissa is taken. Values above the largest finite one have no rounding.
-/

namespace ScriptCheck

/-- The number `mantissa * 2 ^ exponent`. -/
structure Binary64 where
  mantissa : Nat
  exponent : Int
  deriving DecidableEq, Repr

namespace Binary64

def zero : Binary64 := ⟨0, 0⟩

/-- The smallest exponent of the format. -/
def leastExponent : Int := -1074

/-- The largest exponent of the format. -/
def greatestExponent : Int := 971

/-- A quotient divided by a power of two, as numerator and denominator. -/
def scaleDown (numerator denominator : Nat) (exponent : Int) : Nat × Nat :=
  (numerator * Nat.pow 2 (-exponent).toNat, denominator * Nat.pow 2 exponent.toNat)

/-- The whole number nearest to a quotient, the even one of two. -/
def nearest (numerator denominator : Nat) : Nat :=
  let quotient := numerator / denominator
  let twice := 2 * (numerator % denominator)
  if denominator < twice || (twice == denominator && quotient % 2 == 1) then quotient + 1
  else quotient

/-- The exponent at which a quotient has a mantissa of 53 bits, or the least exponent. -/
def exponentFor (numerator denominator : Nat) : Int :=
  let estimate : Int := (numerator.log2 : Int) - denominator.log2 - 52
  let (above, below) := scaleDown numerator denominator estimate
  max leastExponent (if above < below * Nat.pow 2 52 then estimate - 1 else estimate)

/-- The value nearest to a quotient, if the format reaches that far. -/
def round? (numerator denominator : Nat) : Option Binary64 :=
  if numerator = 0 then
    some zero
  else
    let exponent := exponentFor numerator denominator
    let (above, below) := scaleDown numerator denominator exponent
    let mantissa := nearest above below
    let rounded : Binary64 :=
      if mantissa = Nat.pow 2 53 then ⟨Nat.pow 2 52, exponent + 1⟩ else ⟨mantissa, exponent⟩
    if greatestExponent < rounded.exponent then none else some rounded

/-- The value nearest to a whole number. -/
def ofNat? (n : Nat) : Option Binary64 := round? n 1

/-- The value nearest to a product. -/
def mul? (a b : Binary64) : Option Binary64 :=
  let (above, below) := scaleDown (a.mantissa * b.mantissa) 1 (-(a.exponent + b.exponent))
  round? above below

/-- The value nearest to a quotient. -/
def div? (a b : Binary64) : Option Binary64 :=
  let (above, below) := scaleDown a.mantissa b.mantissa (b.exponent - a.exponent)
  round? above below

end Binary64

end ScriptCheck
