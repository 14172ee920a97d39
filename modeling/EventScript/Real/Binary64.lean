namespace EventScript

-- A non-negative binary64 value: `significand * 2 ^ exponent`, or infinity.
inductive Binary64 where
  | finite (significand : Nat) (exponent : Int)
  | infinite
deriving DecidableEq, Repr, Inhabited

-- The quotient rounded to the nearest whole number, a half to the even one.
def roundHalfEven (numerator denominator : Nat) : Nat :=
  let whole := numerator / denominator
  let twice := 2 * (numerator % denominator)
  if twice < denominator then whole
  else if denominator < twice then whole + 1
  else whole + whole % 2

namespace Binary64

-- The least exponent; values below `2 ^ 52` times its unit are subnormal.
def minExponent : Int := -1074

def maxExponent : Int := 971

def zero : Binary64 := finite 0 minExponent

-- Numerator and denominator of `numerator / denominator / 2 ^ exponent`.
def scaled (numerator denominator : Nat) (exponent : Int) : Nat × Nat :=
  match exponent with
  | .ofNat n => (numerator, denominator * Nat.pow 2 n)
  | .negSucc n => (numerator * Nat.pow 2 (n + 1), denominator)

-- The exponent that leaves 53 significant bits of `numerator / denominator`, or the least exponent.
-- The logarithms of the two give it up to one, and the floor of the scaled quotient decides.
def exponentOf (numerator denominator : Nat) : Int :=
  let guess := max minExponent ((numerator.log2 : Int) - denominator.log2 - 53)
  let (n, d) := scaled numerator denominator guess
  if Nat.pow 2 53 ≤ n / d then guess + 1 else guess

-- The value nearest to a quotient, of two equally near ones the one with an even significand.
def ofRatio (numerator denominator : Nat) : Binary64 :=
  if numerator = 0 then zero
  else
    let exponent := exponentOf numerator denominator
    let (n, d) := scaled numerator denominator exponent
    let rounded := roundHalfEven n d
    let (significand, exponent) :=
      if rounded = Nat.pow 2 53 then (Nat.pow 2 52, exponent + 1) else (rounded, exponent)
    if maxExponent < exponent then infinite else finite significand exponent

-- The number of decimal digits of `n`; zero has one.
def decimalLength (n : Nat) : Nat := (Nat.toDigits 10 n).length

-- The value nearest to `coefficient * 10 ^ exponent`. A number of more than 310 digits before the
-- point is above every finite value, and one with more than 330 zeros behind it is below half the
-- least one, so the power of ten is only formed when it is small.
def ofDecimal (coefficient : Nat) (exponent : Int) : Binary64 :=
  let magnitude := (decimalLength coefficient : Int) + exponent
  if coefficient = 0 then zero
  else if 310 < magnitude then infinite
  else if magnitude < -330 then zero
  else match exponent with
    | .ofNat n => ofRatio (coefficient * Nat.pow 10 n) 1
    | .negSucc n => ofRatio coefficient (Nat.pow 10 (n + 1))

end Binary64

end EventScript
