import ScriptHost.Proofs.Token.Extent

/-!
The order of tokens in a text. Each token takes at least one byte, and the next one begins where it
ends or behind that; so no two tokens of a text have a byte in common.
-/

namespace ScriptHost

/-- The tokens stand between the two offsets, one behind the other, and none of them is empty. -/
def Ranged : Nat → Nat → List Token → Prop
  | first, last, [] => first ≤ last
  | first, last, t :: rest =>
    (first ≤ t.span.start ∧ t.span.start < t.span.stop) ∧ Ranged t.span.stop last rest

namespace Ranged

variable {first last : Nat} {used rest : List Token}

theorem le (h : Ranged first last used) : first ≤ last := by
  induction used generalizing first with
  | nil => exact h
  | cons t rest ih =>
      have hrest := ih h.2
      have htoken := h.1
      omega

/-- Two runs of tokens in a row meet at some offset. -/
theorem exists_of_append (h : Ranged first last (used ++ rest)) :
    ∃ middle, Ranged first middle used ∧ Ranged middle last rest := by
  induction used generalizing first with
  | nil => exact ⟨first, Nat.le_refl _, h⟩
  | cons t used ih =>
      obtain ⟨middle, hused, hrest⟩ := ih h.2
      exact ⟨middle, ⟨h.1, hused⟩, hrest⟩

end Ranged

theorem width_pos_of_scanToken {c : Char} {cs : List Char} {offset : Nat}
    {scratch left : TextBuffer} {s : Scanned} (h : scanToken c cs offset scratch = (.ok s, left)) :
    0 < s.width := by
  obtain ⟨front, hfront, hwidth⟩ := leaves_of_scanToken h
  have hshorter := length_rest_lt_of_scanToken h
  cases front with
  | nil =>
      rw [hfront] at hshorter
      exact absurd hshorter (Nat.lt_irrefl _)
  | cons first more =>
      have hsize := first.utf8Size_pos
      rw [← hwidth, byteLength]
      omega

theorem ranged_of_scanFrom {text : List Char} {offset : Nat} {scratch : TextBuffer}
    {front : List Token} {last : Token}
    (h : (scanFrom text offset scratch).1 = .ok (front ++ [last])) :
    Ranged offset last.span.start front := by
  fun_induction scanFrom text offset scratch generalizing front with
  | case1 | case4 => cases h
  | case2 text offset scratch start hgap =>
      obtain ⟨width, rfl, -⟩ := leaves_of_skipGap hgap
      cases front with
      | nil =>
          cases h
          exact Nat.le_add_right _ _
      | cons t front => simp at h
  | case3 text offset scratch cs start hgap =>
      obtain ⟨width, rfl, -⟩ := leaves_of_skipGap hgap
      cases front with
      | nil =>
          cases h
          exact Nat.le_trans (Nat.le_add_right _ _) (Nat.le_add_right _ _)
      | cons t front => simp at h
  | case5 text offset scratch c cs start hgap hc s left hscan token rest left' hrest =>
      rename_i ih
      obtain ⟨width, rfl, -⟩ := leaves_of_skipGap hgap
      cases rest with
      | error d => cases h
      | ok rest =>
          cases front with
          | nil =>
              obtain ⟨-, rfl⟩ := List.cons.inj (Except.ok.inj h)
              obtain ⟨front, stop, hnil, -⟩ := exists_front_of_scanFrom (congrArg Prod.fst hrest)
              simp at hnil
          | cons t front =>
              obtain ⟨rfl, rfl⟩ := List.cons.inj (Except.ok.inj h)
              have hwidth := width_pos_of_scanToken hscan
              exact ⟨⟨Nat.le_add_right _ _, Nat.lt_add_of_pos_right hwidth⟩,
                ih (congrArg Prod.fst hrest)⟩

end ScriptHost
