import ScriptHost.Text.Blank

/-!
Reading decimal numbers: an optional sign, then digits with at most one point among them and at
least one digit, then an optional exponent; or one of the words for infinity and for no number, in
letters of either case. The value is the binary number nearest to the decimal one. Of a very long
exponent only the first digits count.
-/

namespace ScriptHost

/-- A decimal number `digits · 10 ^ exponent` without a sign. -/
structure Decimal where
  digits : Nat
  exponent : Int
  deriving DecidableEq, Repr

namespace Decimal

/-- The value of a digit. -/
def digitValue (c : Char) : Nat := c.toNat - '0'.toNat

/-- The number that a run of digits continues `n` to. -/
def continued (n : Nat) (digits : List Char) : Nat :=
  digits.foldl (fun n c => n * 10 + digitValue c) n

/-- Number written by a run of digits that is halved `depth` times before its parts are read. -/
def halvedValue : Nat → List Char → Nat
  | 0, digits => continued 0 digits
  | depth + 1, digits =>
    let half := digits.length / 2
    halvedValue depth (digits.take half) * Nat.pow 10 (digits.length - half) +
      halvedValue depth (digits.drop half)

/-- Number written by a run of digits. A long run is halved down to parts of at most 128
digits, so that the numbers multiplied are of like length. -/
def digitsValue (digits : List Char) : Nat :=
  halvedValue (digits.length.log2 - 6) digits

theorem continued_eq (n : Nat) (digits : List Char) :
    continued n digits = n * Nat.pow 10 digits.length + continued 0 digits := by
  induction digits generalizing n with
  | nil => simp [continued]
  | cons c cs ih =>
    have step (k : Nat) : continued k (c :: cs) = continued (k * 10 + digitValue c) cs := rfl
    rw [step, step, ih, ih (0 * 10 + digitValue c)]
    simp only [List.length_cons, Nat.pow_eq, Nat.pow_succ, Nat.zero_mul, Nat.zero_add, Nat.add_mul,
      Nat.add_assoc, Nat.mul_assoc, Nat.mul_comm 10]

theorem halvedValue_eq (depth : Nat) (digits : List Char) :
    halvedValue depth digits = continued 0 digits := by
  induction depth generalizing digits with
  | zero => rfl
  | succ depth ih =>
    have whole := List.take_append_drop (digits.length / 2) digits
    have length : (digits.drop (digits.length / 2)).length = digits.length - digits.length / 2 :=
      List.length_drop
    simp only [halvedValue, ih]
    rw [← length, ← continued_eq, continued, continued, ← List.foldl_append, whole, continued]

theorem digitsValue_eq (digits : List Char) : digitsValue digits = continued 0 digits :=
  halvedValue_eq _ digits

/-- An exponent that has come to this stays as it is. -/
def exponentLimit : Nat := 0x10000

/-- Number written by the digits of an exponent. Once the digits read come to the limit, those that
follow do not count. -/
def exponentValue (digits : List Char) : Nat :=
  digits.foldl (fun n c => if n < exponentLimit then n * 10 + digitValue c else n) 0

/-- An exponent after its mark: an optional sign and at least one digit. -/
def readExponent? (text : List Char) : Option Int :=
  let (negative, digits) := match text with
    | '-' :: cs => (true, cs)
    | '+' :: cs => (false, cs)
    | cs => (false, cs)
  if digits.isEmpty || !digits.all Char.isDigit then none
  else
    let value : Int := exponentValue digits
    some (if negative then -value else value)

/-- Reads a decimal number without a sign. -/
def read? (text : List Char) : Option Decimal :=
  let whole := text.takeWhile Char.isDigit
  let rest := text.dropWhile Char.isDigit
  let (fraction, rest) := match rest with
    | '.' :: cs => (cs.takeWhile Char.isDigit, cs.dropWhile Char.isDigit)
    | cs => ([], cs)
  if whole.isEmpty && fraction.isEmpty then none
  else
    let digits := digitsValue (whole ++ fraction)
    match rest with
    | [] => some ⟨digits, -fraction.length⟩
    | mark :: cs =>
      if mark = 'e' ∨ mark = 'E' then
        (readExponent? cs).map fun e => ⟨digits, e - fraction.length⟩
      else none

/-- Whether a number is at least `n`. -/
def reaches (d : Decimal) (n : Nat) : Bool :=
  n * Nat.pow 10 (-d.exponent).toNat ≤ d.digits * Nat.pow 10 d.exponent.toNat

/-- Least power of two that is past every finite number. -/
def overflowBound : Nat := Nat.pow 2 1024

/-- The nearest binary number. What reaches the bound is infinite, so only numbers of at most 1024
binary digits before the point are left to be rounded. -/
def toFloat (d : Decimal) : Float :=
  if d.reaches overflowBound then 1.0 / 0.0
  else Float.ofScientific d.digits (d.exponent < 0) d.exponent.natAbs

end Decimal

/-- Whether the text is this word, in letters of either case. -/
def isWord (word : String) (text : List Char) : Bool :=
  text.map Char.toLower == word.toList

/-- Reads a number without a sign. -/
def readUnsigned? (text : List Char) : Option Float :=
  if isWord "inf" text || isWord "infinity" text then some (1.0 / 0.0)
  else if isWord "nan" text then some (0.0 / 0.0)
  else (Decimal.read? text).map Decimal.toFloat

/-- Reads a number. -/
def readFloat? : List Char → Option Float
  | '-' :: cs => (readUnsigned? cs).map (- ·)
  | '+' :: cs => readUnsigned? cs
  | cs => readUnsigned? cs

/-- The number that a text stands for in arithmetic: zero for a blank text, no number for one that
cannot be read. -/
def textToFloat (text : String) : Float :=
  match trimBlank text.toList with
  | [] => 0.0
  | cs => (readFloat? cs).getD (0.0 / 0.0)

end ScriptHost
