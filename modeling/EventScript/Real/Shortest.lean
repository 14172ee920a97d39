import EventScript.Real.Binary64

namespace EventScript.Binary64

-- The number `coefficient * 10 ^ exponent`.
structure Decimal where
  coefficient : Nat
  exponent : Int
deriving DecidableEq, Repr

-- The reals that are read as one value, counted in quarters of its last place: from `low` to `high`
-- around `middle`, both ends included iff `closed`. The gap below a power of two is half as wide.
structure Interval where
  low : Nat
  middle : Nat
  high : Nat
  closed : Bool
  -- The exponent of two of one quarter.
  exponent : Int

def interval (significand : Nat) (exponent : Int) : Interval where
  low := if significand = Nat.pow 2 52 ∧ minExponent < exponent then 4 * significand - 1
    else 4 * significand - 2
  middle := 4 * significand
  high := 4 * significand + 2
  closed := significand % 2 = 0
  exponent := exponent - 2

-- `base ^ exponent` as numerator and denominator.
def powerRatio (base : Nat) (exponent : Int) : Nat × Nat :=
  match exponent with
  | .ofNat n => (Nat.pow base n, 1)
  | .negSucc n => (1, Nat.pow base (n + 1))

-- Compares points of the grid of step `10 ^ grid` with points counted in quarters: both are brought
-- to one denominator, so `step` is the width of the grid and `unit` that of a quarter.
structure Scale where
  step : Nat
  unit : Nat

def Scale.of (grid exponent : Int) : Scale :=
  let (tenNumerator, tenDenominator) := powerRatio 10 grid
  let (twoNumerator, twoDenominator) := powerRatio 2 exponent
  ⟨tenNumerator * twoDenominator, twoNumerator * tenDenominator⟩

-- Whether the decimal on the grid is read as the value of the interval.
def Interval.holds (around : Interval) (scale : Scale) (coefficient : Nat) : Bool :=
  let point := coefficient * scale.step
  let low := around.low * scale.unit
  let high := around.high * scale.unit
  if around.closed then low ≤ point && point ≤ high else low < point && point < high

-- The nearer of the value's two neighbours on the grid that read back; a tie goes up.
def Interval.nearest? (around : Interval) (grid : Int) : Option Nat :=
  let scale := Scale.of grid around.exponent
  let middle := around.middle * scale.unit
  let below := middle / scale.step
  let above := below + 1
  match around.holds scale below, around.holds scale above with
  | true, true => some (if middle - below * scale.step < above * scale.step - middle then below
      else above)
  | true, false => some below
  | false, true => some above
  | false, false => none

-- The decimal exponent of the leading digit of `significand * 2 ^ exponent`, which is not zero.
def leadingExponent (significand : Nat) (exponent : Int) : Int :=
  let (numerator, denominator) := powerRatio 2 exponent
  (decimalLength (significand * numerator * Nat.pow 10 350 / denominator) : Int) - 351

-- Tries the grids from `grid` on, each ten times finer than the last.
def shortestFrom (around : Interval) : Nat → Int → Decimal
  | 0, grid => ⟨(around.nearest? grid).getD 0, grid⟩
  | tries + 1, grid =>
    match around.nearest? grid with
    | some coefficient => ⟨coefficient, grid⟩
    | none => shortestFrom around tries (grid - 1)

-- The shortest decimal that reads back. Seventeen digits always do.
def shortest (significand : Nat) (exponent : Int) : Decimal :=
  shortestFrom (interval significand exponent) 16 (leadingExponent significand exponent)

-- The digits of the coefficient without zeros at their end.
def Decimal.digits (d : Decimal) : List Char :=
  ((Nat.toDigits 10 d.coefficient).reverse.dropWhile (· = '0')).reverse

def Decimal.leading (d : Decimal) : Int := (decimalLength d.coefficient : Int) - 1 + d.exponent

-- The digits with a point `whole` places behind the first, and at least one digit on each side.
def positional (digits : List Char) (leading : Int) : String :=
  match leading with
  | .ofNat n =>
    let whole := digits.take (n + 1)
    let fraction := digits.drop (n + 1)
    String.ofList (whole ++ List.replicate (n + 1 - whole.length) '0' ++ ['.'] ++
      if fraction.isEmpty then ['0'] else fraction)
  | .negSucc n => String.ofList (['0', '.'] ++ List.replicate n '0' ++ digits)

-- One digit before the point, none behind it where there is no more, and the exponent.
def scientific (digits : List Char) (leading : Int) : String :=
  let fraction := digits.drop 1
  let mantissa := digits.take 1 ++ if fraction.isEmpty then [] else '.' :: fraction
  String.ofList mantissa ++ "e" ++ toString leading

-- Values from a ten-thousandth up to below `10 ^ 16` are written with a point alone.
def render : Binary64 → String
  | infinite => "inf"
  | finite significand exponent =>
    if significand = 0 then "0.0"
    else
      let decimal := shortest significand exponent
      if -4 ≤ decimal.leading ∧ decimal.leading < 16 then
        positional decimal.digits decimal.leading
      else scientific decimal.digits decimal.leading

end EventScript.Binary64
