import ScriptHost.Text.Utf8

/-!
Where text is written: a buffer of bytes, or a device that is full and takes nothing.
-/

namespace ScriptHost

/-- Bytes written so far. -/
structure ByteBuffer where
  bytes : ByteArray

namespace ByteBuffer

/-- A buffer to which nothing was written. -/
def empty : ByteBuffer := ⟨ByteArray.empty⟩

/-- Adds bytes at the end. -/
def write (b : ByteBuffer) (bytes : ByteArray) : ByteBuffer := ⟨b.bytes ++ bytes⟩

/-- The bytes read as text, of which some may be malformed. -/
def contents (b : ByteBuffer) : String := Utf8.decodeLossy b.bytes.toList

theorem bytes_write (b : ByteBuffer) (bytes : ByteArray) : (b.write bytes).bytes = b.bytes ++ bytes :=
  rfl

end ByteBuffer

/-- Where text is written. -/
inductive Output
  | buffer (written : ByteBuffer)
  | full

namespace Output

/-- Why a full device takes nothing. -/
def noSpace : String := "No space left on device (os error 28)"

/-- Writes text, or tells why it cannot be written. -/
def write (o : Output) (text : String) : Except String Output :=
  match o with
  | buffer b => .ok (.buffer (b.write text.toUTF8))
  | full => .error noSpace

/-- The text written so far. -/
def contents : Output → String
  | buffer b => b.contents
  | full => ""

/-- Forgets what was written. -/
def drained : Output → Output
  | buffer _ => buffer .empty
  | full => full

end Output

end ScriptHost
