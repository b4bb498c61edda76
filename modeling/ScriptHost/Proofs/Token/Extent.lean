import ScriptHost.Token.Lexer

/-!
How far scanning goes. What a scanner skips or takes is the front of its text, and the offsets it
counts are the bytes of that front; so every token and every refusal is placed within the text.
-/

namespace ScriptHost

/-- The text has this rest after so many bytes. -/
def Leaves (text rest : List Char) (width : Nat) : Prop :=
  ∃ front, text = front ++ rest ∧ byteLength front = width

namespace Leaves

variable {text rest : List Char} {width : Nat}

theorem refl (text : List Char) : Leaves text text 0 := ⟨[], rfl, rfl⟩

theorem cons (c : Char) (h : Leaves text rest width) :
    Leaves (c :: text) rest (c.utf8Size + width) := by
  obtain ⟨front, rfl, rfl⟩ := h
  exact ⟨c :: front, rfl, rfl⟩

theorem trans {last : List Char} {more : Nat} (h : Leaves text rest width)
    (hrest : Leaves rest last more) : Leaves text last (width + more) := by
  obtain ⟨front, rfl, rfl⟩ := h
  obtain ⟨next, rfl, rfl⟩ := hrest
  exact ⟨front ++ next, (List.append_assoc ..).symm, byteLength_append front next⟩

theorem byteLength_eq (h : Leaves text rest width) :
    byteLength text = width + byteLength rest := by
  obtain ⟨front, rfl, rfl⟩ := h
  exact byteLength_append front rest

theorem mem (h : Leaves text rest width) {c : Char} (hc : c ∈ rest) : c ∈ text := by
  obtain ⟨front, rfl, -⟩ := h
  exact List.mem_append_right front hc

end Leaves

theorem leaves_of_skipGap {gap : Gap} {text rest : List Char} {offset stop : Nat}
    (h : skipGap gap text offset = .ok (rest, stop)) :
    ∃ width, stop = offset + width ∧ Leaves text rest width := by
  have hone : '/'.utf8Size = 1 ∧ '*'.utf8Size = 1 := by decide
  fun_induction skipGap gap text offset with
  | case1 | case5 | case6 | case8 =>
      cases h
      exact ⟨0, rfl, .refl _⟩
  | case2 cs offset ih | case3 cs offset ih | case11 start cs offset ih =>
      obtain ⟨width, rfl, hleaves⟩ := ih h
      exact ⟨_, by omega, (hleaves.cons _).cons _⟩
  | case4 c cs offset _ _ _ ih | case9 c cs offset _ _ ih | case13 start c cs offset _ _ ih =>
      obtain ⟨width, rfl, hleaves⟩ := ih h
      exact ⟨_, by omega, hleaves.cons c⟩
  | case7 cs offset ih =>
      obtain ⟨width, rfl, hleaves⟩ := ih h
      exact ⟨_, by omega, hleaves.cons '\n'⟩
  | case10 | case12 => contradiction

/-- A block comment that is not closed begins within the text, or was begun before it. -/
theorem start_lt_of_skipGap {gap : Gap} {text : List Char} {offset : Nat} {d : Diagnostic}
    (h : skipGap gap text offset = .error d) :
    gap = .blockComment d.span.start ∨ d.span.start < offset + byteLength text := by
  have hone : '/'.utf8Size = 1 ∧ '*'.utf8Size = 1 := by decide
  fun_induction skipGap gap text offset with
  | case1 | case5 | case6 | case8 => contradiction
  | case2 cs offset ih | case11 start cs offset ih =>
      rcases ih h with hgap | hlt
      · contradiction
      · simp only [byteLength]
        omega
  | case3 cs offset ih =>
      rcases ih h with hgap | hlt
      · obtain rfl := Gap.blockComment.inj hgap
        simp only [byteLength]
        omega
      · simp only [byteLength]
        omega
  | case4 c cs offset _ _ _ ih | case9 c cs offset _ _ ih =>
      rcases ih h with hgap | hlt
      · contradiction
      · simp only [byteLength]
        omega
  | case7 cs offset ih =>
      rcases ih h with hgap | hlt
      · contradiction
      · simp only [byteLength]
        omega
  | case13 start c cs offset _ _ ih =>
      rcases ih h with hgap | hlt
      · exact .inl hgap
      · simp only [byteLength]
        omega
  | case10 | case12 =>
      cases h
      exact .inl rfl

theorem StringBody.leaves_scan (quote : Char) (text : List Char) :
    Leaves text (scan quote text).rest (scan quote text).width := by
  fun_induction scan quote text with
  | case1 => exact .refl []
  | case2 => exact (Leaves.refl []).cons '\\'
  | case3 cs => exact ((Leaves.refl cs).cons terminator).cons '\\'
  | case4 c cs _ ih =>
      have hleaves := (ih.cons c).cons '\\'
      rw [← Nat.add_assoc] at hleaves
      exact hleaves
  | case5 c cs _ _ _ => exact (Leaves.refl cs).cons c
  | case6 cs _ _ _ => exact (Leaves.refl cs).cons quote
  | case7 c cs _ _ _ _ ih => exact ih.cons c

theorem leaves_of_scanPlain? {c : Char} {cs : List Char} {s : Scanned}
    (h : scanPlain? c cs = some s) : Leaves (c :: cs) s.rest s.width := by
  unfold scanPlain? at h
  split at h
  · cases h
    exact ⟨c :: cs.takeWhile isNamePart, by simp [Scanned.verbatim], rfl⟩
  · split at h
    · cases h
      refine ⟨c :: (numberTail false cs).1, ?_, rfl⟩
      simp [Scanned.verbatim, numberTail_append]
    · obtain ⟨⟨spelling, kind⟩, hp, rfl⟩ := Option.map_eq_some_iff.1 h
      exact ⟨spelling, (append_drop_of_punctuator? hp).symm, rfl⟩

theorem leaves_of_scanToken {c : Char} {cs : List Char} {offset : Nat}
    {scratch left : TextBuffer} {s : Scanned} (h : scanToken c cs offset scratch = (.ok s, left)) :
    Leaves (c :: cs) s.rest s.width := by
  unfold scanToken at h
  split at h
  · dsimp only at h
    split at h
    · cases h
      exact (StringBody.leaves_scan c cs).cons c
    · cases h
  · split at h
    · rename_i hs
      cases h
      exact leaves_of_scanPlain? hs
    · cases h

theorem lexeme_append_of_scanPlain? {c : Char} {cs : List Char} {s : Scanned}
    (h : scanPlain? c cs = some s) : s.lexeme ++ s.rest = c :: cs := by
  unfold scanPlain? at h
  split at h
  · cases h
    exact congrArg (c :: ·) List.takeWhile_append_dropWhile
  · split at h
    · cases h
      exact congrArg (c :: ·) (numberTail_append false cs)
    · obtain ⟨⟨spelling, kind⟩, hp, rfl⟩ := Option.map_eq_some_iff.1 h
      exact append_drop_of_punctuator? hp

theorem scanPlain?_of_scanToken {c : Char} {cs : List Char} {offset : Nat} {scratch : TextBuffer}
    {s : Scanned} (h : (scanToken c cs offset scratch).1 = .ok s) (hkind : s.kind ≠ .string) :
    scanPlain? c cs = some s := by
  unfold scanToken at h
  split at h
  · dsimp only at h
    split at h
    · cases h
      exact absurd rfl hkind
    · cases h
  · split at h
    · rename_i hplain
      cases h
      exact hplain
    · cases h

theorem wordKind_ne (word : List Char) :
    wordKind word ≠ .string ∧ wordKind word ≠ .endOfText := by
  unfold wordKind
  split <;> simp

theorem kind_ne_of_punctuator? {text spelling : List Char} {kind : TokenKind}
    (h : punctuator? text = some (spelling, kind)) : kind ≠ .string ∧ kind ≠ .endOfText := by
  have hmem := List.mem_of_find?_eq_some h
  have hall : ∀ p ∈ punctuators, p.2 ≠ .string ∧ p.2 ≠ .endOfText := by decide
  exact hall _ hmem

theorem kind_ne_of_scanPlain? {c : Char} {cs : List Char} {s : Scanned}
    (h : scanPlain? c cs = some s) : s.kind ≠ .string ∧ s.kind ≠ .endOfText := by
  unfold scanPlain? at h
  split at h
  · cases h
    exact wordKind_ne _
  · split at h
    · cases h
      simp [Scanned.verbatim]
    · obtain ⟨⟨spelling, kind⟩, hp, rfl⟩ := Option.map_eq_some_iff.1 h
      exact kind_ne_of_punctuator? hp

theorem kind_ne_of_scanToken {c : Char} {cs : List Char} {offset : Nat}
    {scratch left : TextBuffer} {s : Scanned} (h : scanToken c cs offset scratch = (.ok s, left)) :
    s.kind ≠ .endOfText := by
  unfold scanToken at h
  split at h
  · dsimp only at h
    split at h
    · cases h
      simp
    · cases h
  · split at h
    · rename_i hs
      cases h
      exact (kind_ne_of_scanPlain? hs).2
    · cases h

/-- Where no token can be scanned, the refusal begins where the token would have begun. -/
theorem start_of_scanToken {c : Char} {cs : List Char} {offset : Nat}
    {scratch left : TextBuffer} {d : Diagnostic}
    (h : scanToken c cs offset scratch = (.error d, left)) : d.span.start = offset := by
  unfold scanToken at h
  split at h
  · dsimp only at h
    split at h
    · cases h
    · cases h
      rfl
  · split at h
    · cases h
    · cases h
      rfl

/-- Each token takes the front of what is left, and the rest is scanned after it. -/
theorem leaves_of_scan {text cs : List Char} {c : Char} {offset start : Nat}
    {scratch left : TextBuffer} {s : Scanned}
    (hgap : skipGap .blank text offset = .ok (c :: cs, start))
    (hscan : scanToken c cs start scratch = (.ok s, left)) :
    ∃ width, start + s.width = offset + width ∧ start < offset + byteLength text ∧
      Leaves text s.rest width := by
  obtain ⟨width, rfl, hleaves⟩ := leaves_of_skipGap hgap
  have hsize := c.utf8Size_pos
  have hbytes := hleaves.byteLength_eq
  rw [byteLength] at hbytes
  exact ⟨width + s.width, by omega, by omega, hleaves.trans (leaves_of_scanToken hscan)⟩

/-- A refusal begins within the text. -/
theorem start_lt_of_scanFrom {text : List Char} {offset : Nat} {scratch left : TextBuffer}
    {d : Diagnostic} (h : scanFrom text offset scratch = (.error d, left)) :
    d.span.start < offset + byteLength text := by
  fun_induction scanFrom text offset scratch generalizing left with
  | case1 text offset scratch e hgap =>
      cases h
      rcases start_lt_of_skipGap hgap with hopen | hlt
      · contradiction
      · exact hlt
  | case2 | case3 => cases h
  | case4 text offset scratch c cs start hgap _ e scratch' hscan =>
      cases h
      obtain ⟨width, hstart, hleaves⟩ := leaves_of_skipGap hgap
      have hbytes := hleaves.byteLength_eq
      have hsize := c.utf8Size_pos
      rw [byteLength] at hbytes
      rw [start_of_scanToken hscan]
      omega
  | case5 text offset scratch c cs start hgap _ s scratch' hscan token tokens left' hrest =>
      rename_i ih
      cases tokens with
      | ok tokens => cases h
      | error e =>
          cases h
          obtain ⟨width, hstart, -, hleaves⟩ := leaves_of_scan hgap hscan
          have hlt := ih hrest
          have hbytes := hleaves.byteLength_eq
          omega

/-- The token that marks the end of a text. -/
def Token.ofEnd (stop : Nat) : Token := ⟨.endOfText, "", ⟨stop, stop⟩⟩

/-- The tokens of a text end in one that marks its end, and no other does. -/
theorem exists_front_of_scanFrom {text : List Char} {offset : Nat} {scratch : TextBuffer}
    {tokens : List Token} (h : (scanFrom text offset scratch).1 = .ok tokens) :
    ∃ (front : List Token) (stop : Nat), tokens = front ++ [.ofEnd stop] ∧
      ∀ t ∈ front, t.kind ≠ .endOfText := by
  fun_induction scanFrom text offset scratch generalizing tokens with
  | case1 | case4 => cases h
  | case2 | case3 =>
      cases h
      exact ⟨[], _, rfl, List.forall_mem_nil _⟩
  | case5 text offset scratch c cs start hgap hc s left hscan token rest left' hrest =>
      rename_i ih
      cases rest with
      | error d => cases h
      | ok rest =>
          cases h
          obtain ⟨front, stop, rfl, hfront⟩ := ih (congrArg Prod.fst hrest)
          exact ⟨token :: front, stop, rfl,
            List.forall_mem_cons.mpr ⟨kind_ne_of_scanToken hscan, hfront⟩⟩

end ScriptHost
