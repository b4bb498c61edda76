/-!
Binary floating point taken apart and put together: a finite number is `± mantissa · 2 ^ exponent`
with a mantissa below `2 ^ 53` and an exponent of at least `-1074`. On these parts the remainder of
a division is exact integer arithmetic.
-/

namespace ScriptHost

/-- A finite number: sign, mantissa and binary exponent. -/
structure Binary64 where
  negative : Bool
  mantissa : Nat
  exponent : Int
  deriving DecidableEq, Repr

namespace Binary64

/-- Least exponent, that of the numbers nearest to zero. -/
def minExponent : Int := -1074

/-- Weight of the sign among the bits of a number. -/
def signWeight : Nat := 0x8000000000000000

/-- Weight of the exponent among the bits of a number, which is also the least mantissa of 53
bits. -/
def exponentWeight : Nat := 0x10000000000000

/-- The parts of a number, unless it is infinite or no number. -/
def ofFloat? (x : Float) : Option Binary64 :=
  let bits : Nat := x.toBits.toNat
  let negative := bits / signWeight == 1
  let biased : Nat := bits / exponentWeight % 2048
  let fraction : Nat := bits % exponentWeight
  if biased = 2047 then none
  else if biased = 0 then some ⟨negative, fraction, minExponent⟩
  else some ⟨negative, exponentWeight + fraction, (biased : Int) - 1075⟩

/-- The same value with a mantissa of 53 bits, or of fewer at the least exponent. A mantissa that
needs more bits than that must end in zeros. -/
def normalize (b : Binary64) : Binary64 :=
  let length : Nat := if b.mantissa = 0 then 0 else b.mantissa.log2 + 1
  if 53 < length then
    { b with mantissa := b.mantissa >>> (length - 53), exponent := b.exponent + (length - 53 : Nat) }
  else
    let shift := min (53 - length) (b.exponent - minExponent).toNat
    { b with mantissa := b.mantissa <<< shift, exponent := b.exponent - shift }

/-- The number with these parts. -/
def toFloat (b : Binary64) : Float :=
  let n := b.normalize
  let biased := if n.mantissa < exponentWeight then 0 else (n.exponent + 1075).toNat
  let sign := if n.negative then signWeight else 0
  Float.ofBits (UInt64.ofNat (sign + biased * exponentWeight + n.mantissa % exponentWeight))

/-- The size at a given exponent, which must not exceed that of the number. -/
def scaled (b : Binary64) (exponent : Int) : Nat :=
  b.mantissa <<< (b.exponent - exponent).toNat

/-- What is left of `a` after taking away `b` as many whole times as it goes, with the sign of
`a`. The divisor must not be zero. -/
def remainder (a b : Binary64) : Binary64 :=
  let exponent := min a.exponent b.exponent
  ⟨a.negative, a.scaled exponent % b.scaled exponent, exponent⟩

theorem negative_remainder (a b : Binary64) : (a.remainder b).negative = a.negative := rfl

theorem scaled_remainder_lt {a b : Binary64} (h : b.mantissa ≠ 0) :
    (a.remainder b).mantissa < b.scaled (min a.exponent b.exponent) := by
  apply Nat.mod_lt
  simp only [scaled, Nat.shiftLeft_eq]
  exact Nat.mul_pos (Nat.pos_of_ne_zero h) (Nat.two_pow_pos _)

end Binary64

/-- Remainder of a division whose quotient is cut toward zero; the sign is that of the dividend. -/
def floatRemainder (a b : Float) : Float :=
  match Binary64.ofFloat? a, Binary64.ofFloat? b with
  | some x, some y => if y.mantissa = 0 then 0.0 / 0.0 else (x.remainder y).toFloat
  | some _, none => if b == b then a else 0.0 / 0.0
  | none, _ => 0.0 / 0.0

end ScriptHost
