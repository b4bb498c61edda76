import ScriptHost.Proofs.Token.Layout

/-!
Cutting a text at byte offsets. An offset past the end or within a character cuts nothing, nor does
a span that ends before it begins; what is cut is what stands at the span.
-/

namespace ScriptHost

/-- The text up to a byte offset and from there on, where a character begins there or the text
ends. -/
def cut? : List Char → Nat → Option (List Char × List Char)
  | text, 0 => some ([], text)
  | [], _ + 1 => none
  | c :: cs, offset =>
    if c.utf8Size ≤ offset then
      (cut? cs (offset - c.utf8Size)).map fun (front, rest) => (c :: front, rest)
    else none

/-- The part of the text at a span. -/
def slice? (text : List Char) (span : Span) : Option (List Char) :=
  if span.start ≤ span.stop then do
    let (front, _) ← cut? text span.stop
    let (_, piece) ← cut? front span.start
    return piece
  else none

variable {text front rest piece after : List Char} {c : Char} {offset : Nat} {span : Span}

theorem cut?_zero (text : List Char) : cut? text 0 = some ([], text) := by
  cases text <;> rfl

theorem cut?_cons (c : Char) (cs : List Char) (more : Nat) :
    cut? (c :: cs) (c.utf8Size + more) =
      (cut? cs more).map fun (front, rest) => (c :: front, rest) := by
  have hsize := c.utf8Size_pos
  rw [cut?.eq_def]
  split
  · rename_i hzero
    omega
  · contradiction
  · rename_i heq _
    obtain ⟨rfl, rfl⟩ := List.cons.inj heq
    rw [if_pos (Nat.le_add_right _ _), Nat.add_sub_cancel_left]

theorem cut?_append (front rest : List Char) :
    cut? (front ++ rest) (byteLength front) = some (front, rest) := by
  induction front with
  | nil => exact cut?_zero rest
  | cons c cs ih => rw [List.cons_append, byteLength, cut?_cons, ih]; rfl

theorem cut?_eq_some_iff :
    cut? text offset = some (front, rest) ↔ text = front ++ rest ∧ byteLength front = offset := by
  constructor
  · intro h
    fun_induction cut? text offset generalizing front with
    | case1 =>
        cases h
        exact ⟨rfl, rfl⟩
    | case2 => cases h
    | case3 offset c cs _ hsize ih =>
        obtain ⟨⟨front, rest⟩, hcut, heq⟩ := Option.map_eq_some_iff.mp h
        cases heq
        obtain ⟨rfl, hlength⟩ := ih hcut
        refine ⟨rfl, ?_⟩
        rw [byteLength, hlength]
        omega
    | case4 => cases h
  · rintro ⟨rfl, rfl⟩
    exact cut?_append front rest

/-- What is cut out is what stands there. -/
theorem slice?_eq_some_iff : slice? text span = some piece ↔ StandsAt text 0 piece span := by
  unfold slice? StandsAt
  constructor
  · intro h
    split at h
    · obtain ⟨⟨front, after⟩, hfront, h⟩ := Option.bind_eq_some_iff.mp h
      obtain ⟨⟨before, piece⟩, hbefore, h⟩ := Option.bind_eq_some_iff.mp h
      cases h
      obtain ⟨rfl, hstop⟩ := cut?_eq_some_iff.mp hfront
      obtain ⟨rfl, hstart⟩ := cut?_eq_some_iff.mp hbefore
      rw [byteLength_append] at hstop
      exact ⟨before, after, rfl, by omega, by omega⟩
    · cases h
  · rintro ⟨before, after, rfl, hstart, hstop⟩
    have hfront : cut? (before ++ piece ++ after) span.stop = some (before ++ piece, after) :=
      cut?_eq_some_iff.mpr ⟨rfl, by rw [byteLength_append]; omega⟩
    have hbefore : cut? (before ++ piece) span.start = some (before, piece) :=
      cut?_eq_some_iff.mpr ⟨rfl, by omega⟩
    rw [if_pos (by omega), hfront]
    dsimp only [bind, Option.bind]
    rw [hbefore]
    rfl

theorem StandsAt.append_right (h : StandsAt text offset piece span) (after : List Char) :
    StandsAt (text ++ after) offset piece span := by
  obtain ⟨before, behind, rfl, hstart, hstop⟩ := h
  exact ⟨before, behind ++ after, by simp, hstart, hstop⟩

end ScriptHost
