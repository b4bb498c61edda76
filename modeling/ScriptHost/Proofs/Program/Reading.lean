import ScriptHost.Program.Cursor

/-!
What the parsers of single tokens do to a cursor, one equation for each.
-/

namespace ScriptHost

/-- The token to be read next. -/
def Cursor.next (c : Cursor) : Token := c.remaining.headD Parser.endOfText

/-- The cursor after the next token, or at the end of the text where it was. -/
def Cursor.taken (c : Cursor) : Cursor :=
  if c.next.kind = .endOfText then c else { c with remaining := c.remaining.tail }

@[simp] theorem Cursor.limit_taken (c : Cursor) : c.taken.limit = c.limit := by
  unfold taken
  split <;> rfl

@[simp] theorem Cursor.depth_taken (c : Cursor) : c.taken.depth = c.depth := by
  unfold taken
  split <;> rfl

namespace Parser

variable {α β : Type} {c d : Cursor}

theorem bind_apply (p : Parser α) (f : α → Parser β) (c : Cursor) :
    (p >>= f) c = match p c with
      | .ok a d => f a d
      | .error e d => .error e d := by
  change EStateM.bind p f c = _
  unfold EStateM.bind
  cases p c <;> rfl

theorem bind_of_ok {p : Parser α} {f : α → Parser β} {a : α} {c d : Cursor} (h : p c = .ok a d) :
    (p >>= f) c = f a d := by
  rw [bind_apply, h]

theorem error_of_bind {p : Parser α} {f : α → Parser β} {e : Diagnostic} (h : p c = .error e d) :
    (p >>= f) c = .error e d := by
  rw [bind_apply, h]

/-- A sequence that reads something reads it in two parts. -/
theorem ok_of_bind {p : Parser α} {f : α → Parser β} {b : β} {c d : Cursor}
    (h : (p >>= f) c = .ok b d) : ∃ a middle, p c = .ok a middle ∧ f a middle = .ok b d := by
  rw [bind_apply] at h
  cases hfirst : p c with
  | error e middle =>
      rw [hfirst] at h
      cases h
  | ok a middle =>
      rw [hfirst] at h
      exact ⟨a, middle, rfl, h⟩

theorem advance_apply (c : Cursor) : advance c = .ok c.next c.taken := by
  unfold advance
  rw [bind_apply]
  change (if c.next.kind ≠ .endOfText then _ else _ : Parser Token) c = _
  unfold Cursor.taken
  by_cases hend : c.next.kind = .endOfText
  · rw [if_neg (not_not_intro hend), if_pos hend]
    rfl
  · rw [if_pos hend, if_neg hend]
    rfl

theorem refuseNext_ne_ok (message : String) (c : Cursor) (a : α) (d : Cursor) :
    refuseNext message c ≠ .ok a d := by
  intro h
  unfold refuseNext at h
  rw [bind_apply] at h
  change (if c.next.kind = .endOfText then
      refuse (message ++ ", found end of input") c.next.span
    else refuse (message ++ ", found `" ++ c.next.lexeme ++ "`") c.next.span : Parser α) c =
      .ok a d at h
  split at h
  · cases h
  · cases h

theorem expect_apply (kind : TokenKind) (message : String) (c : Cursor) :
    expect kind message c =
      if c.next.kind = kind then .ok c.next c.taken else refuseNext message c := by
  unfold expect
  rw [bind_apply]
  change (if c.next.kind = kind then advance else refuseNext message : Parser Token) c = _
  split
  · exact advance_apply c
  · rfl

theorem accept?_apply (kind : TokenKind) (c : Cursor) :
    accept? kind c =
      if c.next.kind = kind then .ok (some c.next) c.taken else .ok none c := by
  unfold accept?
  rw [bind_apply]
  change (if c.next.kind = kind then (do return some (← advance)) else pure none :
    Parser (Option Token)) c = _
  split
  · rw [bind_apply, advance_apply]
    rfl
  · rfl

theorem descend_apply (c : Cursor) :
    descend c =
      if c.depth < c.limit then .ok () { c with depth := c.depth + 1 } else tooDeep c := by
  unfold descend
  rw [bind_apply]
  change (if c.depth < c.limit then _ else _ : Parser Unit) c = _
  split
  · rfl
  · rfl

theorem deepened_apply (p : Parser α) (h : descend c = .ok () d) :
    deepened p c = match p d with
      | .ok a e => .ok a { e with depth := e.depth - 1 }
      | .error x e => .error x e := by
  refine (bind_of_ok h).trans ?_
  rw [bind_apply]
  rfl

/-- What is accepted one level deeper is accepted there whatever is done about a refusal. -/
theorem deepened_eq_ok_iff {p : Parser α} {a : α} :
    deepened p c = .ok a d ↔ nested p c = .ok a d := by
  cases hdescend : descend c with
  | error x e =>
      have hdeepened : deepened p c = .error x e := error_of_bind hdescend
      have hnested : nested p c = .error x e := error_of_bind hdescend
      rw [hdeepened, hnested]
  | ok u e =>
      have hnested : nested p c = _ := bind_of_ok hdescend
      rw [deepened_apply p hdescend, hnested]
      cases p e <;> simp

end Parser

end ScriptHost
