import ScriptHost.Text.Buffer
import ScriptHost.Text.Span

/-!
Where offsets lead. What follows an offset makes no difference to its position, and a terminator
counts as one more column.
-/

namespace ScriptHost.Position

theorem walk_zero (p : Position) (text : List Char) : p.walk text 0 = p := by
  cases text with
  | nil => rfl
  | cons c cs =>
      have hsize := c.utf8Size_pos
      rw [walk, if_neg (by omega)]

theorem walk_append_of_le (p : Position) {text : List Char} (after : List Char) {offset : Nat}
    (h : offset ≤ byteLength text) : p.walk (text ++ after) offset = p.walk text offset := by
  induction text generalizing p offset with
  | nil =>
      obtain rfl := Nat.le_zero.mp h
      rw [walk_zero, walk_zero]
  | cons c cs ih =>
      rw [byteLength] at h
      rw [List.cons_append, walk, walk]
      split
      · exact ih _ (by omega)
      · rfl

theorem walk_append_byteLength (p : Position) (text after : List Char) (offset : Nat) :
    p.walk (text ++ after) (byteLength text + offset) =
      (p.walk text (byteLength text)).walk after offset := by
  induction text generalizing p with
  | nil =>
      rw [byteLength, walk_zero, Nat.zero_add]
      rfl
  | cons c cs ih =>
      rw [List.cons_append, byteLength, walk, walk, if_pos (by omega), if_pos (by omega),
        Nat.add_assoc, Nat.add_sub_cancel_left, Nat.add_sub_cancel_left]
      exact ih _

/-- The offset after a terminator that ends a text is in the next column. -/
theorem ofOffset_terminated (text : List Char) :
    ofOffset (text ++ [terminator]) (byteLength text + 1) =
      ⟨(ofOffset text (byteLength text)).line, (ofOffset text (byteLength text)).column + 1⟩ := by
  unfold ofOffset
  rw [walk_append_byteLength]
  rfl

end ScriptHost.Position
