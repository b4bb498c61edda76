/-!
Reading bytes as UTF-8 when some of them may be malformed. Each longest beginning of a sequence
that cannot be completed is shown as one replacement character.
-/

namespace ScriptHost.Utf8

/-- Stands in decoded text for bytes that are no character. -/
def replacement : Char := '\uFFFD'

/-- A sequence begun but not complete: the bits read so far, how many bytes are to come, and the
range in which the next of them must lie. -/
structure Pending where
  value : Nat
  remaining : Nat
  low : Nat
  high : Nat

/-- What the first byte of a sequence gives: a character, a sequence to be completed, or neither. -/
def first (b : Nat) : List Char × Option Pending :=
  if b < 0x80 then ([Char.ofNat b], none)
  else if b < 0xC2 then ([replacement], none)
  else if b < 0xE0 then ([], some ⟨b % 32, 1, 0x80, 0xBF⟩)
  else if b < 0xF0 then
    ([], some ⟨b % 16, 2, if b = 0xE0 then 0xA0 else 0x80, if b = 0xED then 0x9F else 0xBF⟩)
  else if b < 0xF5 then
    ([], some ⟨b % 8, 3, if b = 0xF0 then 0x90 else 0x80, if b = 0xF4 then 0x8F else 0xBF⟩)
  else ([replacement], none)

/-- What one more byte gives after a sequence that may have been begun. -/
def next : Option Pending → Nat → List Char × Option Pending
  | none, b => first b
  | some p, b =>
    if p.low ≤ b ∧ b ≤ p.high then
      let value := p.value * 64 + b % 64
      if p.remaining ≤ 1 then ([Char.ofNat value], none)
      else ([], some ⟨value, p.remaining - 1, 0x80, 0xBF⟩)
    else
      let (cs, pending) := first b
      (replacement :: cs, pending)

/-- Characters of the bytes that follow a sequence that may have been begun. -/
def decodeFrom : Option Pending → List UInt8 → List Char
  | none, [] => []
  | some _, [] => [replacement]
  | pending, b :: bs =>
    let (cs, pending) := next pending b.toNat
    cs ++ decodeFrom pending bs

/-- Text of bytes of which some may be malformed. -/
def decodeLossy (bytes : List UInt8) : String :=
  String.ofList (decodeFrom none bytes)

theorem decodeFrom_ascii {b : UInt8} (h : b.toNat < 0x80) (bs : List UInt8) :
    decodeFrom none (b :: bs) = Char.ofNat b.toNat :: decodeFrom none bs := by
  simp [decodeFrom, next, first, h]

end ScriptHost.Utf8
