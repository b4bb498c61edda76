/-!
Text storage. A buffer holds text and remembers whether it ever took memory for it; clearing the
text keeps that memory, releasing the buffer gives it back.
-/

namespace ScriptHost

/-- Marks the end of scannable text: everything from the first one on is ignored. -/
def terminator : Char := '\x00'

/-- Text together with whether any memory is held for it. -/
structure TextBuffer where
  text : String
  held : Bool
  deriving DecidableEq, Repr

namespace TextBuffer

/-- A buffer that never took memory. -/
def empty : TextBuffer := ⟨"", false⟩

/-- Greatest number of bytes that one allocation may ask for. -/
def maxCapacity : Nat := 0x7FFFFFFFFFFFFFFF

/-- Room for `length` bytes and a terminator, when that many bytes can be had at all. -/
def allocate? (length : Nat) : Option TextBuffer :=
  if length + 1 ≤ maxCapacity then some ⟨"", true⟩ else none

/-- Adds text at the end. -/
def append (b : TextBuffer) (text : String) : TextBuffer :=
  ⟨b.text ++ text, b.held || !text.isEmpty⟩

/-- Forgets the text and keeps the memory. -/
def clear (b : TextBuffer) : TextBuffer := { b with text := "" }

/-- Replaces the text, within the memory already held if there is any. -/
def assign (b : TextBuffer) (text : String) : TextBuffer := b.clear.append text

/-- Adds the terminator at the end. -/
def terminate (b : TextBuffer) : TextBuffer := b.append (String.singleton terminator)

/-- Adds the text of at most `limit` of the bytes, or nothing where they are not UTF-8. The answer
is the number of bytes that were read as text. -/
def fill (b : TextBuffer) (bytes : ByteArray) (limit : Nat) : Option Nat × TextBuffer :=
  let taken := bytes.extract 0 (min limit bytes.size)
  match String.fromUTF8? taken with
  | some text => (some taken.size, b.append text)
  | none => (none, { b with held := true })

/-- Whether the text ends in a terminator. -/
def isTerminated (b : TextBuffer) : Bool := b.text.toList.getLast? == some terminator

/-- Gives the memory back; the answer tells whether there was any. -/
def release (b : TextBuffer) : Bool × TextBuffer := (b.held, empty)

@[simp] theorem text_append (b : TextBuffer) (t : String) : (b.append t).text = b.text ++ t := rfl

@[simp] theorem text_assign (b : TextBuffer) (t : String) : (b.assign t).text = t := by
  simp [assign, clear]

end TextBuffer

end ScriptHost
