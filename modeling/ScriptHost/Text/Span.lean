/-!
Places in a source text. Offsets count the bytes of the text in UTF-8; a position counts lines and
the characters of the last line, both from one.
-/

namespace ScriptHost

/-- Number of bytes of a text in UTF-8. -/
def byteLength : List Char → Nat
  | [] => 0
  | c :: cs => c.utf8Size + byteLength cs

theorem byteLength_append (s t : List Char) :
    byteLength (s ++ t) = byteLength s + byteLength t := by
  induction s with
  | nil => simp [byteLength]
  | cons c cs ih => simp [byteLength, ih, Nat.add_assoc]

/-- The bytes from offset `start` up to, but not including, offset `stop`. -/
structure Span where
  start : Nat
  stop : Nat
  deriving DecidableEq, Repr

/-- The shortest span that holds both. -/
def Span.through (first last : Span) : Span := ⟨first.start, last.stop⟩

/-- Line and column of a character, both counted from one. -/
structure Position where
  line : Nat
  column : Nat
  deriving DecidableEq, Repr

namespace Position

/-- Position of the first character of a text. -/
def origin : Position := ⟨1, 1⟩

/-- Position of the character after `c`. -/
def advance (p : Position) (c : Char) : Position :=
  if c = '\n' then ⟨p.line + 1, 1⟩ else ⟨p.line, p.column + 1⟩

/-- Position reached from `p` through the characters that end within the next `offset` bytes. -/
def walk (p : Position) : List Char → Nat → Position
  | [], _ => p
  | c :: cs, offset =>
    if c.utf8Size ≤ offset then (p.advance c).walk cs (offset - c.utf8Size) else p

/-- Position of the character at a byte offset; an offset past the text means its end. -/
def ofOffset (source : List Char) (offset : Nat) : Position :=
  origin.walk source offset

theorem ofOffset_zero (source : List Char) : ofOffset source 0 = origin := by
  cases source with
  | nil => rfl
  | cons c cs =>
    have := c.utf8Size_pos
    simp [ofOffset, walk]
    omega

theorem walk_append (p : Position) (s t : List Char) :
    p.walk (s ++ t) (byteLength s) = p.walk s (byteLength s) := by
  induction s generalizing p with
  | nil =>
    cases t with
    | nil => rfl
    | cons c cs =>
      have := c.utf8Size_pos
      simp [byteLength, walk]
      omega
  | cons c cs ih => simp [byteLength, walk, ih]

end Position

end ScriptHost
