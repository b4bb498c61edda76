import ScriptHost.Proofs.Program.Onward
import ScriptHost.Proofs.Program.Spacing

/-!
Where the spans of a tree come from. Every construct extends from the beginning of a token to the
end of one. The lemmas follow the productions and say at the same time that each of them, wherever
it begins within the token list, stops within it.
-/

namespace ScriptHost

open ScriptHost.Parser

/-- From the beginning of a token to the end of a token. -/
structure Span.Between (tokens : List Token) (span : Span) : Prop where
  start : ∃ t ∈ tokens, span.start = t.span.start
  stop : ∃ t ∈ tokens, span.stop = t.span.stop

variable {tokens : List Token} {first last : Span}

theorem Token.between {t : Token} (ht : t ∈ tokens) : t.span.Between tokens :=
  ⟨⟨t, ht, rfl⟩, ⟨t, ht, rfl⟩⟩

theorem Span.Between.through (hfirst : first.Between tokens) (hlast : last.Between tokens) :
    (first.through last).Between tokens :=
  ⟨hfirst.start, hlast.stop⟩

namespace Tree

/-- Every construct in the tree extends from the beginning of a token to the end of a token. -/
inductive Between (tokens : List Token) : Tree → Prop
  | intro {t : Tree} (hspan : t.span.Between tokens) (hparts : ∀ u ∈ t.parts, Between tokens u) :
      Between tokens t

variable {t : Tree}

theorem Between.span (h : t.Between tokens) : t.span.Between tokens := by
  cases h with
  | intro hspan => exact hspan

theorem Between.part (h : t.Between tokens) {u : Tree} (hu : u ∈ t.parts) : u.Between tokens := by
  cases h with
  | intro _ hparts => exact hparts u hu

theorem Between.of_inner (hpart : t.leftPart? = none) (hspan : t.span.Between tokens)
    (hinner : ∀ u ∈ t.innerParts, u.Between tokens) : t.Between tokens := by
  refine .intro hspan ?_
  rw [parts, hpart]
  exact hinner

theorem Between.of_left {e : Expr} (hpart : t.leftPart? = some e) (hspan : t.span.Between tokens)
    (he : (expr e).Between tokens) (hinner : ∀ u ∈ t.innerParts, u.Between tokens) :
    t.Between tokens := by
  refine .intro hspan ?_
  rw [parts, hpart]
  exact List.forall_mem_cons.mpr ⟨he, hinner⟩

end Tree

namespace Deeper

/-- Within the token list these parsers stop within it, and what they read extends from tokens to
tokens. -/
structure Stay (tokens : List Token) (deeper : Deeper) : Prop where
  statement : Stays tokens deeper.statement fun s => (Tree.stmt s).Between tokens
  expression : Stays tokens deeper.expression fun e => (Tree.expr e).Between tokens
  operand : Stays tokens deeper.operand fun e => (Tree.expr e).Between tokens

variable {deeper : Deeper}

theorem Stay.block (h : deeper.Stay tokens) :
    Stays tokens deeper.block fun read =>
      read.2.Between tokens ∧ ∀ s ∈ read.1, (Tree.stmt s).Between tokens := by
  apply (stays_expect _ _).bind
  intro first hfirst
  apply stays_tokensLeft_bind
  intro bound
  apply (h.statement.manyUntil bound).bind
  intro body hbody
  apply (stays_expect _ _).bind
  intro last hlast
  exact stays_pure ⟨(Token.between hfirst).through (Token.between hlast), hbody⟩

theorem Stay.function (h : deeper.Stay tokens) :
    Stays tokens deeper.function fun read =>
      read.2.Between tokens ∧ ∀ s ∈ read.1.body, (Tree.stmt s).Between tokens := by
  apply stays_advance.bind
  intro first hfirst
  apply (stays_accept? _).bind
  intro name _
  apply (stays_expect _ _).discard.bind
  intro _ _
  apply (stays_expect _ _).separatedUntil.bind
  intro parameters _
  apply (stays_expect _ _).discard.bind
  intro _ _
  apply h.block.inFunction.bind
  rintro read ⟨hspan, hbody⟩
  exact stays_pure ⟨(Token.between hfirst).through hspan, hbody⟩

theorem stays_key : Stays tokens key (· ∈ tokens) := by
  apply stays_peekKind_bind
  intro kind
  split
  · exact stays_advance
  · exact stays_advance
  · exact stays_expectProperty _

theorem Stay.entries (h : deeper.Stay tokens) (bound : List Token) :
    Stays tokens (deeper.entries bound) fun entries =>
      ∀ entry ∈ entries, (Tree.expr entry.value).Between tokens := by
  induction bound with
  | nil => exact stays_pure (List.forall_mem_nil _)
  | cons token bound ih =>
      apply stays_peekKind_bind
      intro kind
      split
      · exact stays_pure (List.forall_mem_nil _)
      · apply stays_key.bind
        intro key _
        apply (stays_expect _ _).discard.bind
        intro _ _
        apply h.expression.bind
        intro value hvalue
        apply (stays_accept? _).bind
        intro comma _
        cases comma with
        | none => exact stays_pure (List.forall_mem_singleton.mpr hvalue)
        | some _ =>
            apply ih.bind
            intro entries hentries
            exact stays_pure (List.forall_mem_cons.mpr ⟨hvalue, hentries⟩)

theorem Stay.primary (h : deeper.Stay tokens) :
    Stays tokens deeper.primary fun e => (Tree.expr e).Between tokens := by
  apply stays_peekKind_bind
  intro kind
  split
  · apply stays_advance.bind
    intro token htoken
    split
    · exact stays_pure (.of_inner rfl (Token.between htoken) (List.forall_mem_nil _))
    · exact stays_refuse htoken _
  · apply stays_advance.bind
    intro token htoken
    exact stays_pure (.of_inner rfl (Token.between htoken) (List.forall_mem_nil _))
  · apply stays_advance.bind
    intro token htoken
    exact stays_pure (.of_inner rfl (Token.between htoken) (List.forall_mem_nil _))
  · apply stays_advance.bind
    intro token htoken
    exact stays_pure (.of_inner rfl (Token.between htoken) (List.forall_mem_nil _))
  · apply h.function.bind
    rintro read ⟨hspan, hbody⟩
    exact stays_pure (.of_inner rfl hspan (List.forall_mem_map.mpr hbody))
  · apply stays_advance.discard.bind
    intro _ _
    apply h.expression.bind
    intro inner hinner
    apply (stays_expect _ _).discard.bind
    intro _ _
    exact stays_pure hinner
  · apply stays_advance.bind
    intro first hfirst
    apply stays_tokensLeft_bind
    intro bound
    apply (h.entries bound).bind
    intro entries hentries
    apply (stays_expect _ _).bind
    intro last hlast
    exact stays_pure (.of_inner rfl ((Token.between hfirst).through (Token.between hlast))
      (List.forall_mem_map.mpr hentries))
  · split
    · apply stays_advance.bind
      intro token htoken
      exact stays_pure (.of_inner rfl (Token.between htoken) (List.forall_mem_nil _))
    · exact stays_refuseNext _
  · exact stays_refuseNext _

theorem Stay.suffixes (h : deeper.Stay tokens) (bound : List Token) {e : Expr}
    (he : (Tree.expr e).Between tokens) :
    Stays tokens (deeper.suffixes bound e) fun e => (Tree.expr e).Between tokens := by
  induction bound generalizing e with
  | nil => exact stays_pure he
  | cons token bound ih =>
      apply stays_peekKind_bind
      intro kind
      split
      · apply stays_advance.discard.bind
        intro _ _
        apply stays_descend.bind
        intro _ _
        apply h.expression.separatedUntil.bind
        intro arguments harguments
        apply (stays_expect _ _).bind
        intro last hlast
        exact ih (.of_left rfl (he.span.through (Token.between hlast)) he
          (List.forall_mem_map.mpr harguments))
      · apply stays_advance.discard.bind
        intro _ _
        apply stays_descend.bind
        intro _ _
        apply (stays_expectProperty _).bind
        intro name hname
        exact ih (.of_left rfl (he.span.through (Token.between hname)) he (List.forall_mem_nil _))
      · exact stays_pure he

theorem Stay.suffixed (h : deeper.Stay tokens) :
    Stays tokens deeper.suffixed fun e => (Tree.expr e).Between tokens := by
  apply h.primary.bind
  intro e he
  apply Stays.restoringDepth
  apply stays_tokensLeft_bind
  intro bound
  exact h.suffixes bound he

theorem Stay.unary (h : deeper.Stay tokens) :
    Stays tokens deeper.unary fun e => (Tree.expr e).Between tokens := by
  apply stays_peekKind_bind
  intro kind
  split
  · apply stays_advance.bind
    intro first hfirst
    apply h.operand.bind
    intro operand hoperand
    exact stays_pure (.of_inner rfl ((Token.between hfirst).through hoperand.span)
      (List.forall_mem_singleton.mpr hoperand))
  · exact h.suffixed

theorem stays_operations {operators : List (TokenKind × Operator)} {operand : Parser Expr}
    (hoperand : Stays tokens operand fun e => (Tree.expr e).Between tokens) (bound : List Token)
    {left : Expr} (hleft : (Tree.expr left).Between tokens) :
    Stays tokens (operations operators operand bound left) fun e =>
      (Tree.expr e).Between tokens := by
  induction bound generalizing left with
  | nil => exact stays_pure hleft
  | cons token bound ih =>
      apply stays_peekKind_bind
      intro kind
      split
      · rename_i op _
        apply stays_advance.discard.bind
        intro _ _
        apply stays_descend.bind
        intro _ _
        apply hoperand.bind
        intro right hright
        apply ih
        refine .of_left (Tree.leftPart?_join op left right) ?_ hleft ?_
        · rw [Tree.span_join]
          exact hleft.span.through hright.span
        · rw [Tree.innerParts_join]
          exact List.forall_mem_singleton.mpr hright
      · exact stays_pure hleft

theorem Stay.level (h : deeper.Stay tokens) (groups : List (List (TokenKind × Operator))) :
    Stays tokens (deeper.level groups) fun e => (Tree.expr e).Between tokens := by
  induction groups with
  | nil => exact h.unary
  | cons operators tighter ih =>
      apply ih.bind
      intro left hleft
      apply Stays.restoringDepth
      apply stays_tokensLeft_bind
      intro bound
      exact stays_operations ih bound hleft

theorem Stay.assignment (h : deeper.Stay tokens) :
    Stays tokens deeper.assignment fun e => (Tree.expr e).Between tokens := by
  apply (h.level operatorLevels).bind
  intro target htarget
  apply (stays_accept? _).bind
  intro sign hsign
  split
  · exact stays_pure htarget
  · apply h.expression.bind
    intro value hvalue
    split
    · exact stays_pure (.of_left rfl (htarget.span.through hvalue.span) htarget
        (List.forall_mem_singleton.mpr hvalue))
    · exact stays_refuse (hsign _ rfl) _

theorem Stay.condition (h : deeper.Stay tokens) :
    Stays tokens deeper.condition fun e => (Tree.expr e).Between tokens := by
  apply (stays_expect _ _).discard.bind
  intro _ _
  apply h.expression.bind
  intro condition hcondition
  apply (stays_expect _ _).discard.bind
  intro _ _
  exact stays_pure hcondition

theorem stays_optionalSemicolon : Stays tokens optionalSemicolon fun _ => True :=
  (stays_accept? _).discard

/-- A statement ends with its last part, or where it would end without one. -/
theorem between_getD {α : Type} {tree : α → Tree} {span : α → Span} {last : Option α}
    {otherwise : Span} (hspan : ∀ a, (tree a).span = span a)
    (hlast : ∀ a ∈ last, (tree a).Between tokens)
    (hotherwise : otherwise.Between tokens) :
    ((last.map span).getD otherwise).Between tokens := by
  cases last with
  | none => exact hotherwise
  | some a =>
      have hbetween := (hlast a rfl).span
      rwa [hspan] at hbetween

theorem Stay.varDeclaration (h : deeper.Stay tokens) :
    Stays tokens deeper.varDeclaration fun s => (Tree.stmt s).Between tokens := by
  apply stays_advance.bind
  intro first hfirst
  apply (stays_expect _ _).bind
  intro name hname
  apply h.expression.following?.bind
  intro initial hinitial
  apply stays_optionalSemicolon.bind
  intro _ _
  have hlast := between_getD (fun _ => rfl) hinitial (Token.between hname)
  exact stays_pure (.of_inner rfl ((Token.between hfirst).through hlast)
    (by simpa [Tree.innerParts] using hinitial))

theorem Stay.conditional (h : deeper.Stay tokens) :
    Stays tokens deeper.conditional fun s => (Tree.stmt s).Between tokens := by
  apply stays_advance.bind
  intro first hfirst
  apply h.condition.bind
  intro condition hcondition
  apply h.statement.bind
  intro thenBranch hthen
  apply h.statement.following?.bind
  intro elseBranch helse
  have hlast := between_getD (fun _ => rfl) helse hthen.span
  apply stays_pure
  apply Tree.Between.of_inner rfl ((Token.between hfirst).through hlast)
  simpa [Tree.innerParts] using ⟨hcondition, hthen, helse⟩

theorem Stay.whileLoop (h : deeper.Stay tokens) :
    Stays tokens deeper.whileLoop fun s => (Tree.stmt s).Between tokens := by
  apply stays_advance.bind
  intro first hfirst
  apply h.condition.bind
  intro condition hcondition
  apply h.statement.bind
  intro body hbody
  apply stays_pure
  apply Tree.Between.of_inner rfl ((Token.between hfirst).through hbody.span)
  simpa [Tree.innerParts] using ⟨hcondition, hbody⟩

theorem Stay.returnValue (h : deeper.Stay tokens) :
    Stays tokens deeper.returnValue fun value => ∀ e ∈ value, (Tree.expr e).Between tokens := by
  apply stays_peekKind_bind
  intro kind
  split
  · exact stays_pure (by simp)
  · exact stays_pure (by simp)
  · exact stays_pure (by simp)
  · apply h.expression.bind
    intro value hvalue
    exact stays_pure (by simpa using hvalue)

theorem Stay.returnStatement (h : deeper.Stay tokens) :
    Stays tokens deeper.returnStatement fun s => (Tree.stmt s).Between tokens := by
  apply stays_advance.bind
  intro first hfirst
  apply stays_get_bind
  intro c
  split
  · exact stays_refuse hfirst _
  · apply h.returnValue.bind
    intro value hvalue
    apply stays_optionalSemicolon.bind
    intro _ _
    have hlast := between_getD (fun _ => rfl) hvalue (Token.between hfirst)
    exact stays_pure (.of_inner rfl ((Token.between hfirst).through hlast)
      (by simpa [Tree.innerParts] using hvalue))

theorem Stay.expressionStatement (h : deeper.Stay tokens) :
    Stays tokens deeper.expressionStatement fun s => (Tree.stmt s).Between tokens := by
  apply h.expression.bind
  intro value hvalue
  apply stays_optionalSemicolon.bind
  intro _ _
  exact stays_pure (.of_inner rfl hvalue.span (List.forall_mem_singleton.mpr hvalue))

theorem Stay.anyStatement (h : deeper.Stay tokens) :
    Stays tokens deeper.anyStatement fun s => (Tree.stmt s).Between tokens := by
  apply stays_peekKind_bind
  intro kind
  split
  · exact h.varDeclaration
  · apply stays_peekSecondKind_bind
    intro second
    split
    · apply h.function.bind
      rintro read ⟨hspan, hbody⟩
      exact stays_pure (.of_inner rfl hspan (List.forall_mem_map.mpr hbody))
    · exact h.expressionStatement
  · exact h.conditional
  · exact h.whileLoop
  · exact h.returnStatement
  · apply h.block.bind
    rintro read ⟨hspan, hbody⟩
    exact stays_pure (.of_inner rfl hspan (List.forall_mem_map.mpr hbody))
  · apply stays_advance.bind
    intro token htoken
    exact stays_pure (.of_inner rfl (Token.between htoken) (List.forall_mem_nil _))
  · exact h.expressionStatement

theorem Stay.above (h : deeper.Stay tokens) : deeper.above.Stay tokens where
  statement := h.anyStatement.nested
  expression := h.assignment.nested
  operand := h.unary.deepened

theorem stay_ofAllowance (tokens : List Token) (allowance : Nat) :
    (ofAllowance allowance).Stay tokens := by
  induction allowance with
  | zero => exact ⟨stays_tooDeep, stays_tooDeep, stays_tooDeep⟩
  | succ allowance ih => exact ih.above

end Deeper

theorem stays_program (tokens : List Token) :
    Stays tokens program fun body => ∀ s ∈ body, (Tree.stmt s).Between tokens := by
  apply stays_get_bind
  intro c
  apply stays_tokensLeft_bind
  intro bound
  exact (Deeper.stay_ofAllowance tokens c.limit).statement.manyUntil bound

/-- A parse of all the tokens begins in front of the first of them. -/
theorem Cursor.on_start {limit : Nat} (hend : ∃ t ∈ tokens, t.kind = .endOfText) :
    Cursor.On tokens ⟨tokens, limit, 0, 0⟩ :=
  ⟨List.suffix_refl _, hend, Nat.zero_le _⟩

/-- The constructs of a program extend from tokens to tokens. -/
theorem between_of_programWithin {limit : Nat} {body : List Stmt}
    (hend : ∃ t ∈ tokens, t.kind = .endOfText) (h : programWithin limit tokens = .ok body) :
    ∀ s ∈ body, (Tree.stmt s).Between tokens := by
  have hstops := stays_program tokens ⟨tokens, limit, 0, 0⟩ (Cursor.on_start hend)
  unfold programWithin at h
  generalize program ⟨tokens, limit, 0, 0⟩ = r at h hstops
  cases hstops with
  | ok hd hon hbody =>
      cases h
      exact hbody
  | error => cases h

/-- Where tokens are no program, one of them is refused, and the refusal is placed there. -/
theorem refused_of_programWithin {limit : Nat} {d : Diagnostic}
    (hend : ∃ t ∈ tokens, t.kind = .endOfText) (h : programWithin limit tokens = .error d) :
    d.kind = .parser ∧ ∃ t ∈ tokens, d.span? = some t.span := by
  have hstops := stays_program tokens ⟨tokens, limit, 0, 0⟩ (Cursor.on_start hend)
  unfold programWithin at h
  generalize program ⟨tokens, limit, 0, 0⟩ = r at h hstops
  cases hstops with
  | ok => cases h
  | error hd hon hkind hspan =>
      cases h
      exact ⟨hkind, hspan⟩

end ScriptHost
