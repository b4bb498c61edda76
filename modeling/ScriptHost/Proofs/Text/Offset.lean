import Mathlib.Data.Prod.Lex
import ScriptHost.Proofs.Token.Cuts

/-!
Positions as names of offsets. Going on in a text goes on in its positions, by lines and on a line
by columns, so no two places of a text have one position; and the lines and columns that a position
counts lead back to the place.
-/

namespace ScriptHost

/-- The text up to the end of so many of its lines, and what follows. -/
def cutLines? : Nat → List Char → Option (List Char × List Char)
  | 0, text => some ([], text)
  | _ + 1, [] => none
  | count + 1, c :: cs =>
    (cutLines? (if c = '\n' then count else count + 1) cs).map fun (front, rest) =>
      (c :: front, rest)

namespace Position

/-- Line and column, in the lexicographic order. -/
def key (p : Position) : ℕ ×ₗ ℕ := toLex (p.line, p.column)

/-- The offset of a position in a text, found by skipping the lines in front of it and then the
characters in front of it on its own line. -/
def offset? (source : List Char) (p : Position) : Option Nat := do
  let (lines, rest) ← cutLines? (p.line - 1) source
  let columns := rest.take (p.column - 1)
  if columns.length = p.column - 1 then some (byteLength (lines ++ columns)) else none

variable {source front rest line : List Char} {first second : Span}

theorem key_lt_key_advance (p : Position) (c : Char) : p.key < (p.advance c).key := by
  rw [key, key, Prod.Lex.toLex_lt_toLex]
  unfold advance
  split
  · exact .inl (Nat.lt_succ_self p.line)
  · exact .inr ⟨rfl, Nat.lt_succ_self p.column⟩

/-- What comes later in a text has the greater position. -/
theorem key_lt_key_walk (p : Position) {text : List Char} (h : text ≠ []) :
    p.key < (p.walk text (byteLength text)).key := by
  induction text generalizing p with
  | nil => exact absurd rfl h
  | cons c cs ih =>
      have hstep : p.walk (c :: cs) (byteLength (c :: cs)) =
          (p.advance c).walk cs (byteLength cs) := by
        rw [byteLength, walk, if_pos (Nat.le_add_right _ _), Nat.add_sub_cancel_left]
      rw [hstep]
      by_cases hcs : cs = []
      · subst hcs
        exact key_lt_key_advance p c
      · exact (key_lt_key_advance p c).trans (ih (p.advance c) hcs)

theorem key_ofOffset_lt (hfirst : IsBoundary source first.start)
    (hsecond : IsBoundary source second.start) (hlt : first.start < second.start) :
    (ofOffset source first.start).key < (ofOffset source second.start).key := by
  obtain ⟨after, before, rfl, hbefore⟩ := hfirst
  obtain ⟨rest, front, hsplit, hfront⟩ := hsecond
  -- The text in front of the second place begins with the text in front of the first.
  rcases List.append_eq_append_iff.mp hsplit with ⟨between, rfl, rfl⟩ | ⟨between, rfl, rfl⟩
  · rw [byteLength_append] at hfront
    have hne : between ≠ [] := by
      rintro rfl
      rw [byteLength] at hfront
      omega
    have hwalk : ofOffset (before ++ (between ++ rest)) second.start =
        (ofOffset before first.start).walk between (byteLength between) := by
      rw [ofOffset, ← hfront, walk_append_byteLength, walk_append_of_le _ _ (Nat.le_refl _),
        hbefore, ofOffset]
    have hhere : ofOffset (before ++ (between ++ rest)) first.start =
        ofOffset before first.start := by
      rw [ofOffset, ofOffset, ← hbefore, walk_append]
    rw [hwalk, hhere]
    exact key_lt_key_walk _ hne
  · rw [byteLength_append] at hbefore
    omega

theorem cutLines?_zero (text : List Char) : cutLines? 0 text = some ([], text) := by
  cases text <;> rfl

/-- Skipping as many lines as end within a text whose last line is complete skips that text. -/
theorem cutLines?_append (front rest : List Char) :
    cutLines? ((front ++ ['\n']).count '\n') (front ++ '\n' :: rest) =
      some (front ++ ['\n'], rest) := by
  induction front with
  | nil => cases rest <;> rfl
  | cons c cs ih =>
      have hpos : 0 < (cs ++ ['\n']).count '\n' := List.count_pos_iff.mpr (by simp)
      obtain ⟨count, hcount⟩ := Nat.exists_eq_add_one.mpr hpos
      by_cases hc : c = '\n'
      · subst hc
        rw [List.cons_append, List.cons_append, List.count_cons_self, cutLines?, if_pos rfl, ih]
        rfl
      · rw [List.cons_append, List.cons_append, List.count_cons_of_ne hc, hcount,
          cutLines?, if_neg hc, ← hcount, ih]
        rfl

theorem offset?_of_cutLines? {count : Nat} {lines : List Char}
    (h : cutLines? count source = some (lines, line ++ rest)) :
    offset? source ⟨1 + count, 1 + line.length⟩ = some (byteLength (lines ++ line)) := by
  unfold offset?
  dsimp only
  rw [Nat.add_sub_cancel_left, Nat.add_sub_cancel_left, h]
  dsimp only [bind, Option.bind]
  rw [List.take_left, if_pos rfl]

/-- A position leads back to the offset that it is the position of. -/
theorem offset?_ofOffset {offset : Nat} (h : IsBoundary source offset) :
    (ofOffset source offset).offset? source = some offset := by
  obtain ⟨rest, front, rfl, rfl⟩ := h
  rw [ofOffset, walk_append]
  by_cases hmem : '\n' ∈ front
  · obtain ⟨init, line, rfl, hline⟩ := exists_last_newline hmem
    have hcount : (init ++ '\n' :: line).count '\n' = (init ++ ['\n']).count '\n' := by
      rw [List.append_cons, List.count_append, List.count_eq_zero_of_not_mem hline, Nat.add_zero]
    have hlines : cutLines? ((init ++ ['\n']).count '\n') (init ++ '\n' :: line ++ rest) =
        some (init ++ ['\n'], line ++ rest) := by
      rw [List.append_assoc, List.cons_append]
      exact cutLines?_append init (line ++ rest)
    have hwhole : init ++ '\n' :: line = init ++ ['\n'] ++ line := List.append_cons ..
    rw [walk_newline _ _ hline, hcount]
    exact (offset?_of_cutLines? hlines).trans (congrArg (some ∘ byteLength) hwhole.symm)
  · rw [walk_of_not_mem _ hmem]
    exact offset?_of_cutLines? (cutLines?_zero (front ++ rest))

end Position

/-- Of two spans in a text, the one that begins earlier has the smaller position, counted from the
text in front of each of them; and both positions lead back to where the spans begin. -/
theorem positions_identify_offsets {source : List Char} {first second : Span}
    (hfirst : IsBoundary source first.start) (hsecond : IsBoundary source second.start)
    (hlt : first.start < second.start) :
    ∃ p q : Position, lineColumn? source first = some p ∧ lineColumn? source second = some q ∧
      p = .ofOffset source first.start ∧ q = .ofOffset source second.start ∧ p.key < q.key ∧
      p.offset? source = some first.start ∧ q.offset? source = some second.start :=
  ⟨_, _, lineColumn?_eq hfirst, lineColumn?_eq hsecond, rfl, rfl,
    Position.key_ofOffset_lt hfirst hsecond hlt, Position.offset?_ofOffset hfirst,
    Position.offset?_ofOffset hsecond⟩

/-- Two characters of more than one byte, an empty line between their lines, and no newline behind
them. -/
theorem positions_identify_offsets_empty_line :
    ∃ p q : Position, lineColumn? "é\n\n→x".toList ⟨3, 3⟩ = some p ∧
      lineColumn? "é\n\n→x".toList ⟨7, 8⟩ = some q ∧ p = ⟨2, 1⟩ ∧ q = ⟨3, 2⟩ ∧ p.key < q.key ∧
      p.offset? "é\n\n→x".toList = some 3 ∧ q.offset? "é\n\n→x".toList = some 7 := by
  have hfirst : IsBoundary "é\n\n→x".toList (⟨3, 3⟩ : Span).start :=
    ⟨['\n', '→', 'x'], ['é', '\n'], by decide, by decide⟩
  have hsecond : IsBoundary "é\n\n→x".toList (⟨7, 8⟩ : Span).start :=
    ⟨['x'], ['é', '\n', '\n', '→'], by decide, by decide⟩
  obtain ⟨p, q, hp, hq, rfl, rfl, hlt, hback, hback'⟩ :=
    positions_identify_offsets hfirst hsecond (by decide)
  exact ⟨_, _, hp, hq, by decide, by decide, hlt, hback, hback'⟩

end ScriptHost
