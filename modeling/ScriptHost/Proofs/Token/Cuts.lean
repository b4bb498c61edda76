import ScriptHost.Proofs.Text.Position
import ScriptHost.Proofs.Token.Segments

/-!
The cuts that compiling a text makes in it: the lexeme of a token is cut out of the source text, and
so is what stands in front of a refusal, whose lines are then counted. Each of these, made where the
scanner is or where a refusal begins, finds what is to be cut.
-/

namespace ScriptHost

variable {source text cs front rest piece : List Char} {c : Char} {offset start stop : Nat}
  {span : Span} {gap : Gap} {scratch left : TextBuffer}

/-- A character begins at the offset, or the text ends there. -/
def IsBoundary (text : List Char) (offset : Nat) : Prop := ∃ rest, Leaves text rest offset

/-- The span lies within the text and cuts no character of it. -/
structure Span.Within (text : List Char) (span : Span) : Prop where
  le : span.start ≤ span.stop
  stop_le : span.stop ≤ byteLength text
  start : IsBoundary text span.start
  stop : IsBoundary text span.stop

theorem StandsAt.within (h : StandsAt text 0 piece span) : span.Within text := by
  obtain ⟨before, after, rfl, hstart, hstop⟩ := h
  have hbytes := byteLength_append (before ++ piece) after
  have hfront := byteLength_append before piece
  refine ⟨by omega, by omega, ⟨piece ++ after, before, by simp, by omega⟩,
    ⟨after, before ++ piece, rfl, by omega⟩⟩

theorem within_of_slice? (h : slice? text span = some piece) : span.Within text :=
  (slice?_eq_some_iff.mp h).within

/-- The token scanned from an offset on, its lexeme cut out of the source text. The content of a
string literal was put together while it was scanned. -/
def Scanned.cutOut? (s : Scanned) (source : List Char) (start : Nat) : Option Token :=
  let span : Span := ⟨start, start + s.width⟩
  match s.kind with
  | .string => some ⟨.string, String.ofList s.lexeme, span⟩
  | kind => (slice? source span).map fun text => ⟨kind, String.ofList text, span⟩

/-- The tokens from an offset of the source text on, where every lexeme can be cut out of it. -/
def cutFrom? (source text : List Char) (offset : Nat) (scratch : TextBuffer) :
    Option (Except Diagnostic (List Token) × TextBuffer) :=
  match _gap : skipGap .blank text offset with
  | .error d => some (.error d, scratch)
  | .ok ([], start) => some (.ok [.ofEnd start], scratch)
  | .ok (c :: cs, start) =>
    if c = terminator then some (.ok [.ofEnd (start + c.utf8Size)], scratch)
    else
      match _scan : scanToken c cs start scratch with
      | (.error d, scratch) => some (.error d, scratch)
      | (.ok s, scratch) => do
        let token ← s.cutOut? source start
        let (tokens, scratch) ← cutFrom? source s.rest (start + s.width) scratch
        return (tokens.map (token :: ·), scratch)
termination_by text.length
decreasing_by
  have := length_le_of_skipGap _gap
  have := length_rest_lt_of_scanToken _scan
  omega

/-- What is cut out is the lexeme that was scanned. -/
theorem cutOut?_of_scanToken {s : Scanned} (hsource : source = front ++ c :: cs)
    (hstart : byteLength front = start) (h : scanToken c cs start scratch = (.ok s, left)) :
    s.cutOut? source start =
      some ⟨s.kind, String.ofList s.lexeme, ⟨start, start + s.width⟩⟩ := by
  unfold Scanned.cutOut?
  dsimp only
  split
  · rename_i hkind
    rw [hkind]
  · rename_i hkind
    obtain ⟨taken, hcs, hwidth, -⟩ := scanToken_self h
    have hlexeme := lexeme_append_of_scanPlain?
      (scanPlain?_of_scanToken (congrArg Prod.fst h) hkind)
    rw [hcs, ← List.cons_append] at hlexeme
    have hslice : slice? source ⟨start, start + s.width⟩ = some s.lexeme := by
      rw [slice?_eq_some_iff, List.append_cancel_right hlexeme]
      refine ⟨front, s.rest, ?_, ?_, ?_⟩
      · rw [hsource, hcs, List.append_assoc, List.cons_append]
      · rw [hstart, Nat.zero_add]
      · rw [hwidth]
    rw [hslice]
    rfl

/-- Every lexeme is cut out of the source text, whether it has tokens or is refused later on. -/
theorem cutFrom?_eq (hsource : source = front ++ text) (hoffset : byteLength front = offset) :
    cutFrom? source text offset scratch = some (scanFrom text offset scratch) := by
  fun_induction scanFrom text offset scratch generalizing front with
  | case1 text offset scratch d hgap => rw [cutFrom?, hgap]
  | case2 text offset scratch start hgap =>
      rw [cutFrom?, hgap]
      rfl
  | case3 text offset scratch cs start hgap =>
      rw [cutFrom?, hgap]
      rfl
  | case4 text offset scratch c cs start hgap hc d left hscan =>
      rw [cutFrom?, hgap]
      dsimp only
      rw [if_neg hc, hscan]
  | case5 text offset scratch c cs start hgap hc s left hscan token rest left' hrest =>
      rename_i ih
      obtain ⟨width, rfl, gap, rfl, rfl⟩ := leaves_of_skipGap hgap
      obtain ⟨taken, hcs, hwidth⟩ := leaves_of_scanToken hscan
      have htext : source = (front ++ gap) ++ c :: cs := by rw [hsource, List.append_assoc]
      have hrests : source = (front ++ gap ++ taken) ++ s.rest := by
        rw [htext, hcs, ← List.append_assoc]
      have hstart : byteLength (front ++ gap) = offset + byteLength gap := by
        rw [byteLength_append, hoffset]
      have htoken : s.cutOut? source (offset + byteLength gap) = some token :=
        cutOut?_of_scanToken htext hstart hscan
      have hcut : cutFrom? source s.rest (offset + byteLength gap + s.width) left =
          some (rest, left') := by
        rw [← hrest]
        exact ih hrests (by rw [byteLength_append, hstart, hwidth])
      rw [cutFrom?, hgap]
      dsimp only
      rw [if_neg hc, hscan]
      dsimp only
      rw [htoken, hcut]
      rfl

/-- Where a comment is not closed, the text from its beginning to where skipping stops is
refused. -/
theorem standsAt_of_skipGap {d : Diagnostic} (h : skipGap gap text offset = .error d) :
    (∃ span piece, d.span? = some span ∧ StandsAt text offset piece span) ∨
      ∃ start rest width, gap = .blockComment start ∧ Leaves text rest width ∧
        d.span? = some ⟨start, offset + width⟩ := by
  have hone : '/'.utf8Size = 1 ∧ '*'.utf8Size = 1 := by decide
  fun_induction skipGap gap text offset with
  | case1 | case5 | case6 | case8 => cases h
  | case2 cs offset ih | case11 start cs offset ih =>
      rcases ih h with ⟨span, piece, hspan, hstands⟩ | ⟨_, _, _, hgap, -⟩
      · exact .inl ⟨span, piece, hspan, .append [_, _] hstands⟩
      · cases hgap
  | case3 cs offset ih =>
      rcases ih h with ⟨span, piece, hspan, hstands⟩ | ⟨_, rest, _, hgap, ⟨front, rfl, rfl⟩, hspan⟩
      · exact .inl ⟨span, piece, hspan, .append [_, _] hstands⟩
      · obtain rfl := Gap.blockComment.inj hgap
        refine .inl ⟨_, '/' :: '*' :: front, hspan, [], rest, rfl, rfl, ?_⟩
        simp only [byteLength]
        omega
  | case4 c cs offset _ _ _ ih | case9 c cs offset _ _ ih =>
      rcases ih h with ⟨span, piece, hspan, hstands⟩ | ⟨_, _, _, hgap, -⟩
      · exact .inl ⟨span, piece, hspan, .append [c] hstands⟩
      · cases hgap
  | case7 cs offset ih =>
      rcases ih h with ⟨span, piece, hspan, hstands⟩ | ⟨_, _, _, hgap, -⟩
      · exact .inl ⟨span, piece, hspan, .append ['\n'] hstands⟩
      · cases hgap
  | case10 start offset =>
      cases h
      exact .inr ⟨start, [], 0, rfl, .refl _, rfl⟩
  | case12 start cs offset =>
      cases h
      exact .inr ⟨start, cs, _, rfl, (Leaves.refl cs).cons _, rfl⟩
  | case13 start c cs offset _ _ ih =>
      rcases ih h with ⟨span, piece, hspan, hstands⟩ | ⟨_, rest, _, hgap, hleaves, hspan⟩
      · exact .inl ⟨span, piece, hspan, .append [c] hstands⟩
      · rw [Nat.add_assoc] at hspan
        exact .inr ⟨_, rest, _, hgap, hleaves.cons c, hspan⟩

theorem standsAt_of_scanToken {d : Diagnostic}
    (h : scanToken c cs offset scratch = (.error d, left)) :
    ∃ span piece, d.span? = some span ∧ StandsAt (c :: cs) offset piece span := by
  have hstands {rest : List Char} {width : Nat} (hleaves : Leaves cs rest width) :
      ∃ piece, StandsAt (c :: cs) offset piece ⟨offset, offset + (c.utf8Size + width)⟩ := by
    obtain ⟨front, rfl, rfl⟩ := hleaves
    exact ⟨c :: front, [], rest, rfl, rfl, rfl⟩
  unfold scanToken at h
  split at h
  · dsimp only at h
    split at h
    · cases h
    · cases h
      obtain ⟨piece, hpiece⟩ := hstands (StringBody.leaves_scan c cs)
      exact ⟨_, piece, rfl, hpiece⟩
  · split at h
    · cases h
    · cases h
      obtain ⟨piece, hpiece⟩ := hstands (.refl cs)
      exact ⟨_, piece, rfl, hpiece⟩

/-- What is refused while a text is scanned stands in it, and the refusal is placed there. -/
theorem standsAt_of_scanFrom {d : Diagnostic} (h : (scanFrom text offset scratch).1 = .error d) :
    ∃ span piece, d.span? = some span ∧ StandsAt text offset piece span := by
  fun_induction scanFrom text offset scratch with
  | case1 text offset scratch e hgap =>
      cases h
      rcases standsAt_of_skipGap hgap with hstands | ⟨_, _, _, hopen, -⟩
      · exact hstands
      · cases hopen
  | case2 | case3 => cases h
  | case4 text offset scratch c cs start hgap hc e left hscan =>
      cases h
      obtain ⟨width, rfl, gap, rfl, rfl⟩ := leaves_of_skipGap hgap
      obtain ⟨span, piece, hspan, hstands⟩ := standsAt_of_scanToken hscan
      exact ⟨span, piece, hspan, .append gap hstands⟩
  | case5 text offset scratch c cs start hgap hc s left hscan token tokens left' hrest =>
      rename_i ih
      cases tokens with
      | ok tokens => cases h
      | error e =>
          cases h
          obtain ⟨width, rfl, gap, rfl, rfl⟩ := leaves_of_skipGap hgap
          obtain ⟨taken, hcs, hwidth⟩ := leaves_of_scanToken hscan
          obtain ⟨span, piece, hspan, hstands⟩ := ih (congrArg Prod.fst hrest)
          refine ⟨span, piece, hspan, ?_⟩
          rw [hcs, ← List.append_assoc]
          apply StandsAt.append
          rw [byteLength_append, ← Nat.add_assoc, hwidth]
          exact hstands

/-- The byte offset of the last newline, in a text that begins at an offset. -/
def lastNewline? : List Char → Nat → Option Nat
  | [], _ => none
  | c :: cs, offset =>
    (lastNewline? cs (offset + c.utf8Size)).orElse fun _ => if c = '\n' then some offset else none

/-- Line and column of where a span begins, from the text in front of it and from the last line of
that. -/
def lineColumn? (source : List Char) (span : Span) : Option Position := do
  let (front, _) ← cut? source (min span.start (byteLength source))
  match lastNewline? front 0 with
  | some newline =>
    let (_, line) ← cut? front (newline + 1)
    return ⟨front.count '\n' + 1, line.length + 1⟩
  | none => return ⟨front.count '\n' + 1, front.length + 1⟩

theorem lastNewline?_of_not_mem (h : '\n' ∉ text) : lastNewline? text offset = none := by
  induction text generalizing offset with
  | nil => rfl
  | cons c cs ih =>
      have hc : c ≠ '\n' := (List.ne_of_not_mem_cons h).symm
      rw [lastNewline?, ih (List.not_mem_of_not_mem_cons h), if_neg hc]
      rfl

theorem lastNewline?_append (front : List Char) (h : '\n' ∉ text) :
    lastNewline? (front ++ '\n' :: text) offset = some (offset + byteLength front) := by
  induction front generalizing offset with
  | nil => rw [List.nil_append, lastNewline?, lastNewline?_of_not_mem h]; rfl
  | cons c cs ih =>
      rw [List.cons_append, lastNewline?, ih, byteLength, Nat.add_assoc]
      rfl

namespace Position

theorem walk_of_not_mem (p : Position) (h : '\n' ∉ text) :
    p.walk text (byteLength text) = ⟨p.line, p.column + text.length⟩ := by
  induction text generalizing p with
  | nil => rfl
  | cons c cs ih =>
      have hc : c ≠ '\n' := (List.ne_of_not_mem_cons h).symm
      rw [byteLength, walk, if_pos (Nat.le_add_right _ _), Nat.add_sub_cancel_left,
        ih _ (List.not_mem_of_not_mem_cons h), advance, if_neg hc, List.length_cons]
      exact congrArg (Position.mk p.line) (Nat.add_right_comm _ _ _)

theorem walk_newline (p : Position) (front : List Char) (h : '\n' ∉ text) :
    p.walk (front ++ '\n' :: text) (byteLength (front ++ '\n' :: text)) =
      ⟨p.line + (front ++ '\n' :: text).count '\n', 1 + text.length⟩ := by
  induction front generalizing p with
  | nil =>
      rw [List.nil_append, byteLength, walk, if_pos (Nat.le_add_right _ _), Nat.add_sub_cancel_left,
        walk_of_not_mem _ h, List.count_cons_self, List.count_eq_zero_of_not_mem h]
      rfl
  | cons c cs ih =>
      rw [List.cons_append, byteLength, walk, if_pos (Nat.le_add_right _ _),
        Nat.add_sub_cancel_left, ih, List.count_cons]
      unfold advance
      split
      · simp [*]
        omega
      · simp [*]

end Position

theorem exists_last_newline (h : '\n' ∈ text) :
    ∃ init line, text = init ++ '\n' :: line ∧ '\n' ∉ line := by
  obtain ⟨line, init, hreverse, hline⟩ := List.eq_append_cons_of_mem (List.mem_reverse.mpr h)
  refine ⟨init.reverse, line.reverse, ?_, by simpa using hline⟩
  rw [← List.reverse_reverse text, hreverse]
  simp

/-- Counting the lines of what stands in front gives the position. -/
theorem lineColumn?_eq (h : IsBoundary source span.start) :
    lineColumn? source span = some (Position.ofOffset source span.start) := by
  obtain ⟨rest, front, rfl, hstart⟩ := h
  have hle : span.start ≤ byteLength (front ++ rest) := by
    rw [byteLength_append]
    omega
  have hcut : cut? (front ++ rest) (min span.start (byteLength (front ++ rest))) =
      some (front, rest) := by
    rw [Nat.min_eq_left hle, ← hstart]
    exact cut?_append front rest
  unfold lineColumn? Position.ofOffset
  rw [hcut, ← hstart, Position.walk_append]
  dsimp only [bind, Option.bind]
  by_cases hmem : '\n' ∈ front
  · obtain ⟨init, line, rfl, hline⟩ := exists_last_newline hmem
    have hcut' : cut? (init ++ '\n' :: line) (byteLength init + 1) =
        some (init ++ ['\n'], line) :=
      cut?_eq_some_iff.mpr ⟨List.append_cons .., byteLength_append init ['\n']⟩
    rw [lastNewline?_append _ hline, Nat.zero_add, Position.walk_newline _ _ hline]
    dsimp only
    rw [hcut', Nat.add_comm 1 line.length, Nat.add_comm _ 1]
    rfl
  · rw [lastNewline?_of_not_mem hmem, Position.walk_of_not_mem _ hmem,
      List.count_eq_zero_of_not_mem hmem, Nat.add_comm front.length 1]
    rfl

end ScriptHost
