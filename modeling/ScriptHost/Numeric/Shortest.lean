import ScriptHost.Numeric.Binary64
import ScriptHost.Numeric.Decimal

/-!
Writing numbers. A whole number below `10 ^ 21` is written in full, any other with the fewest
digits that read back as the same number, always in positional notation.
-/

namespace ScriptHost

namespace Binary64

/-- Ends of the interval of the reals that round to a number, and the number itself between them,
as multiples of `2 ^ (exponent - 2)`. The gap below a power of two is half of that above it. -/
def bounds (b : Binary64) : Nat × Nat × Nat :=
  let below := if b.mantissa = exponentWeight ∧ minExponent < b.exponent then 1 else 2
  (4 * b.mantissa - below, 4 * b.mantissa, 4 * b.mantissa + 2)

/-- A whole number of units of `2 ^ binary` on the scale where one unit of `10 ^ decimal` is
`gridUnit binary decimal`. -/
def onScale (binary decimal : Int) (n : Nat) : Nat :=
  n * Nat.pow 2 binary.toNat * Nat.pow 10 (-decimal).toNat

/-- One unit of `10 ^ decimal` on the scale shared with the units of `2 ^ binary`. -/
def gridUnit (binary decimal : Int) : Nat :=
  Nat.pow 10 decimal.toNat * Nat.pow 2 (-binary).toNat

/-- The multiple of `10 ^ decimal` that reads back as the number, if there is one: of two the
nearer, and the greater when both are equally near. The ends of the interval read back when the
mantissa is even. -/
def onGrid? (b : Binary64) (decimal : Int) : Option Nat :=
  let binary := b.exponent - 2
  let unit := gridUnit binary decimal
  let (low, value, high) := b.bounds
  let low := onScale binary decimal low
  let value := onScale binary decimal value
  let high := onScale binary decimal high
  let closed := b.mantissa % 2 == 0
  let inside (n : Nat) : Bool :=
    if closed then low ≤ n * unit && n * unit ≤ high else low < n * unit && n * unit < high
  let floor := value / unit
  let upIsNearer := (floor + 1) * unit - value ≤ value - floor * unit
  if inside floor && !(upIsNearer && inside (floor + 1)) then some floor
  else if inside (floor + 1) then some (floor + 1)
  else none

/-- Searches grids of ever smaller powers of ten. -/
def searchGrids (b : Binary64) : Nat → Int → Decimal
  | 0, decimal => ⟨(b.onGrid? decimal).getD 0, decimal⟩
  | steps + 1, decimal =>
    match b.onGrid? decimal with
    | some digits => ⟨digits, decimal⟩
    | none => b.searchGrids steps (decimal - 1)

/-- A power of ten that lies above the number. -/
def powerAbove (b : Binary64) : Int :=
  ((b.mantissa.log2 : Int) + b.exponent + 1) * 30103 / 100000 + 1

/-- The decimal number of the fewest digits that reads back as a number other than zero. The
nineteenth grid below a power of ten above the number is finer than its interval. -/
def shortest (b : Binary64) : Decimal :=
  b.searchGrids 19 b.powerAbove

/-- Whether a number has no fraction. -/
def isWhole (b : Binary64) : Bool :=
  0 ≤ b.exponent || b.mantissa % Nat.pow 2 (-b.exponent).toNat == 0

/-- The whole part of the size of a number. -/
def wholePart (b : Binary64) : Nat :=
  if 0 ≤ b.exponent then b.mantissa * Nat.pow 2 b.exponent.toNat
  else b.mantissa / Nat.pow 2 (-b.exponent).toNat

end Binary64

namespace Decimal

/-- Positional notation of a decimal number. -/
def positional (d : Decimal) : String :=
  let digits := Nat.toDigits 10 d.digits
  let places := (-d.exponent).toNat
  if 0 ≤ d.exponent then String.ofList (digits ++ List.replicate d.exponent.toNat '0')
  else if places < digits.length then
    let whole := digits.take (digits.length - places)
    let fraction := digits.drop (digits.length - places)
    String.ofList (whole ++ '.' :: fraction)
  else String.ofList ('0' :: '.' :: List.replicate (places - digits.length) '0' ++ digits)

end Decimal

/-- The least whole number that is not written in full. -/
def wholeLimit : Nat := Nat.pow 10 21

/-- Text of a number. Negative zero is written like zero. -/
def floatText (x : Float) : String :=
  match Binary64.ofFloat? x with
  | none => if x == x then (if x < 0.0 then "-Infinity" else "Infinity") else "NaN"
  | some b =>
    if b.mantissa = 0 then "0"
    else
      let sign := if b.negative then "-" else ""
      if b.isWhole && b.wholePart < wholeLimit then sign ++ toString b.wholePart
      else sign ++ b.shortest.positional

end ScriptHost
