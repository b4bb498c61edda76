import ScriptHost.Program.Parser
import ScriptHost.Proofs.Program.Levels
import ScriptHost.Proofs.Program.Room

/-!
The room a parser has bounds the tree it reads. The bound follows the productions: a construct whose
parts are read with less room is bounded if they are, and a chain of operators or suffixes, which
takes its left operand as it finds it, adds as many steps to the left as there is room for. Such a
step uses up no room on the path it is on, so every level of chains adds its own.
-/

namespace ScriptHost

open ScriptHost.Parser

/-- The most steps to the left on a path in an expression that is read with so much room. -/
def mostLefts : Nat → Nat
  | 0 => 0
  | room + 1 => 7 * room + mostLefts room

/-- The same for an expression of suffixes and so many levels of operators, to each of which the room
is left. -/
def mostLeftsOf (groups room : Nat) : Nat := (groups + 1) * room + mostLefts room

theorem mostLefts_mono {room room' : Nat} (h : room ≤ room') :
    mostLefts room ≤ mostLefts room' := by
  induction h with
  | refl => exact Nat.le_refl _
  | step _ ih =>
      rw [mostLefts]
      omega

theorem mostLeftsOf_mono {groups room room' : Nat} (h : room ≤ room') :
    mostLeftsOf groups room ≤ mostLeftsOf groups room' :=
  Nat.add_le_add (Nat.mul_le_mul_left _ h) (mostLefts_mono h)

theorem mostLeftsOf_zero (room : Nat) : mostLeftsOf 0 room = mostLefts room + room := by
  rw [mostLeftsOf, Nat.zero_add, Nat.one_mul, Nat.add_comm]

theorem mostLeftsOf_succ (groups room : Nat) :
    mostLeftsOf (groups + 1) room = mostLeftsOf groups room + room := by
  rw [mostLeftsOf, mostLeftsOf, Nat.succ_mul (groups + 1)]
  omega

namespace Deeper

/-- What these parsers read is bounded by the room they have. -/
structure Fits (deeper : Deeper) : Prop where
  statement : ∀ room, Keeps room deeper.statement fun s =>
    (Tree.stmt s).Bounded room (mostLefts room)
  expression : ∀ room, Keeps room deeper.expression fun e =>
    (Tree.expr e).Bounded room (mostLefts room)
  operand : ∀ room, Keeps room deeper.operand fun e =>
    (Tree.expr e).Bounded room (mostLefts room + room)

variable {deeper : Deeper} {room : Nat}

theorem Fits.block (h : deeper.Fits) :
    Keeps room deeper.block fun read => ∀ s ∈ read.1, (Tree.stmt s).Bounded room (mostLefts room) := by
  apply (keeps_expect _ _).bind
  intro first _
  apply yields_tokensLeft_bind
  intro bound
  apply (keeps_manyUntil (h.statement room) bound).bind
  intro body hbody
  apply (keeps_expect _ _).bind
  intro last _
  exact keeps_pure hbody

theorem Fits.function (h : deeper.Fits) :
    Keeps room deeper.function fun read =>
      ∀ s ∈ read.1.body, (Tree.stmt s).Bounded room (mostLefts room) := by
  apply keeps_advance.bind
  intro first _
  apply (keeps_accept? _).bind
  intro name _
  apply (keeps_expect _ _).discard.bind
  intro _ _
  apply (keeps_separatedUntil (keeps_expect _ _)).bind
  intro parameters _
  apply (keeps_expect _ _).discard.bind
  intro _ _
  apply (keeps_inFunction h.block).bind
  intro read hbody
  exact keeps_pure hbody

theorem keeps_key : Keeps room key fun _ => True := by
  apply yields_peekKind_bind
  intro kind
  split
  · exact keeps_advance
  · exact keeps_advance
  · exact keeps_expectProperty _

theorem Fits.entries (h : deeper.Fits) (bound : List Token) :
    Keeps room (deeper.entries bound) fun entries =>
      ∀ entry ∈ entries, (Tree.expr entry.value).Bounded room (mostLefts room) := by
  induction bound with
  | nil => exact keeps_pure (List.forall_mem_nil _)
  | cons token bound ih =>
      apply yields_peekKind_bind
      intro kind
      split
      · exact keeps_pure (List.forall_mem_nil _)
      · apply keeps_key.bind
        intro key _
        apply (keeps_expect _ _).discard.bind
        intro _ _
        apply (h.expression room).bind
        intro value hvalue
        apply (keeps_accept? _).bind
        intro comma _
        cases comma with
        | none => exact keeps_pure (List.forall_mem_singleton.mpr hvalue)
        | some _ =>
            apply ih.bind
            intro entries hentries
            exact keeps_pure (List.forall_mem_cons.mpr ⟨hvalue, hentries⟩)

theorem Fits.primary (h : deeper.Fits) :
    Keeps room deeper.primary fun e => (Tree.expr e).Bounded (room + 1) (mostLefts room) := by
  apply yields_peekKind_bind
  intro kind
  split
  · apply keeps_advance.bind
    intro token _
    split
    · exact keeps_pure (.of_inner rfl (List.forall_mem_nil _))
    · exact yields_refuse _ _
  · apply keeps_advance.bind
    intro token _
    exact keeps_pure (.of_inner rfl (List.forall_mem_nil _))
  · apply keeps_advance.bind
    intro token _
    exact keeps_pure (.of_inner rfl (List.forall_mem_nil _))
  · apply keeps_advance.bind
    intro token _
    exact keeps_pure (.of_inner rfl (List.forall_mem_nil _))
  · apply h.function.bind
    intro read hbody
    exact keeps_pure (.of_inner rfl (List.forall_mem_map.mpr hbody))
  · apply keeps_advance.discard.bind
    intro _ _
    apply (h.expression room).bind
    intro inner hinner
    apply (keeps_expect _ _).discard.bind
    intro _ _
    exact keeps_pure (hinner.mono (Nat.le_succ _) (Nat.le_refl _))
  · apply keeps_advance.bind
    intro first _
    apply yields_tokensLeft_bind
    intro bound
    apply (h.entries bound).bind
    intro entries hentries
    apply (keeps_expect _ _).bind
    intro last _
    exact keeps_pure (.of_inner rfl (List.forall_mem_map.mpr hentries))
  · split
    · apply keeps_advance.bind
      intro token _
      exact keeps_pure (.of_inner rfl (List.forall_mem_nil _))
    · exact yields_refuseNext _
  · exact yields_refuseNext _

/-- Suffixes add as many steps to the left as there is room for. -/
theorem Fits.suffixes (h : deeper.Fits) (bound : List Token) {e : Expr} {depth most : Nat}
    (he : (Tree.expr e).Bounded (depth + 1) most) (hroom : room ≤ depth)
    (hmost : mostLefts room ≤ most) :
    Yields room (deeper.suffixes bound e) fun e' _ =>
      (Tree.expr e').Bounded (depth + 1) (most + room) := by
  induction bound generalizing e most room with
  | nil => exact yields_pure (he.mono (Nat.le_refl _) (Nat.le_add_right _ _))
  | cons token bound ih =>
      have hlower : ∀ rest, room = rest + 1 → rest ≤ depth ∧ mostLefts rest ≤ most := by
        rintro rest rfl
        exact ⟨Nat.le_of_succ_le hroom, Nat.le_trans (mostLefts_mono (Nat.le_succ rest)) hmost⟩
      apply yields_peekKind_bind
      intro kind
      split
      · apply keeps_advance.discard.bind
        intro _ _
        apply Yields.bind yields_descend
        rintro _ rest rfl
        obtain ⟨hdepth, hlefts⟩ := hlower rest rfl
        apply (keeps_separatedUntil (h.expression rest)).bind
        intro arguments harguments
        apply (keeps_expect _ _).bind
        intro last _
        rw [Nat.add_comm rest 1, ← Nat.add_assoc]
        apply ih _ hdepth (Nat.le_succ_of_le hlefts)
        refine .of_left rfl he (List.forall_mem_map.mpr ?_)
        intro argument hargument
        exact (harguments argument hargument).mono hdepth (Nat.le_succ_of_le hlefts)
      · apply keeps_advance.discard.bind
        intro _ _
        apply Yields.bind yields_descend
        rintro _ rest rfl
        obtain ⟨hdepth, hlefts⟩ := hlower rest rfl
        apply (keeps_expectProperty _).bind
        intro name _
        rw [Nat.add_comm rest 1, ← Nat.add_assoc]
        apply ih _ hdepth (Nat.le_succ_of_le hlefts)
        exact .of_left rfl he (List.forall_mem_nil _)
      · exact yields_pure (he.mono (Nat.le_refl _) (Nat.le_add_right _ _))

theorem Fits.suffixed (h : deeper.Fits) :
    Keeps room deeper.suffixed fun e => (Tree.expr e).Bounded (room + 1) (mostLeftsOf 0 room) := by
  apply h.primary.bind
  intro e he
  apply keeps_restoringDepth
  apply yields_tokensLeft_bind
  intro bound
  rw [mostLeftsOf_zero]
  apply (h.suffixes bound he (Nat.le_refl _) (Nat.le_refl _)).mono
  intro e' _ he'
  exact he'

theorem Fits.unary (h : deeper.Fits) :
    Keeps room deeper.unary fun e => (Tree.expr e).Bounded (room + 1) (mostLeftsOf 0 room) := by
  apply yields_peekKind_bind
  intro kind
  split
  · apply keeps_advance.bind
    intro first _
    apply (h.operand room).bind
    intro operand hoperand
    rw [mostLeftsOf_zero]
    exact keeps_pure (.of_inner rfl (List.forall_mem_singleton.mpr hoperand))
  · exact h.suffixed

/-- Operators of one level add as many steps to the left as there is room for, and what they make is
no target. -/
theorem yields_operations {operators : List (TokenKind × Operator)} {operand : Parser Expr}
    {groups : Nat} (hoperand : ∀ room, Keeps room operand fun e =>
      (Tree.expr e).Bounded (room + 1) (mostLeftsOf groups room))
    (bound : List Token) {left : Expr} {depth most : Nat}
    (hleft : (Tree.expr left).Bounded (depth + 1) most) (hroom : room ≤ depth)
    (hmost : mostLeftsOf groups room ≤ most) :
    Yields room (operations operators operand bound left) fun e _ =>
      (Tree.expr e).Bounded (depth + 1) (most + room) ∧ (e = left ∨ e.isAssignable = false) := by
  induction bound generalizing left most room with
  | nil => exact yields_pure ⟨hleft.mono (Nat.le_refl _) (Nat.le_add_right _ _), .inl rfl⟩
  | cons token bound ih =>
      apply yields_peekKind_bind
      intro kind
      split
      · rename_i op _
        apply keeps_advance.discard.bind
        intro _ _
        apply Yields.bind yields_descend
        rintro _ rest rfl
        have hlower : mostLeftsOf groups rest ≤ most :=
          Nat.le_trans (mostLeftsOf_mono (Nat.le_succ rest)) hmost
        apply (hoperand rest).bind
        intro right hright
        have hjoined : (Tree.expr (op.join left right)).Bounded (depth + 1) (most + 1) := by
          apply Tree.Bounded.of_left (Tree.leftPart?_join op left right) hleft
          rw [Tree.innerParts_join]
          rintro _ hright'
          obtain rfl := List.mem_singleton.mp hright'
          exact hright.mono hroom (Nat.le_succ_of_le hlower)
        rw [Nat.add_comm rest 1, ← Nat.add_assoc]
        apply (ih hjoined (Nat.le_of_succ_le hroom) (Nat.le_succ_of_le hlower)).mono
        rintro e _ ⟨he, hsame⟩
        refine ⟨he, .inr ?_⟩
        rcases hsame with rfl | hmade
        · cases op <;> rfl
        · exact hmade
      · exact yields_pure ⟨hleft.mono (Nat.le_refl _) (Nat.le_add_right _ _), .inl rfl⟩

/-- An expression with operators has a chain for each level of them; where it is a target there is no
chain but that of its suffixes. -/
theorem Fits.level (h : deeper.Fits) (groups : List (List (TokenKind × Operator))) (room : Nat) :
    Keeps room (deeper.level groups) fun e =>
      (Tree.expr e).Bounded (room + 1) (mostLeftsOf groups.length room) ∧
      (e.isAssignable = true → (Tree.expr e).Bounded (room + 1) (mostLeftsOf 0 room)) := by
  induction groups generalizing room with
  | nil =>
      apply Keeps.mono h.unary
      intro e he
      exact ⟨he, fun _ => he⟩
  | cons operators tighter ih =>
      have hoperand : ∀ room, Keeps room (deeper.level tighter) fun e =>
          (Tree.expr e).Bounded (room + 1) (mostLeftsOf tighter.length room) :=
        fun room => (ih room).mono fun _ => And.left
      apply (ih room).bind
      rintro left ⟨hleft, htarget⟩
      apply keeps_restoringDepth
      apply yields_tokensLeft_bind
      intro bound
      rw [List.length_cons, mostLeftsOf_succ]
      apply (yields_operations hoperand bound hleft (Nat.le_refl _) (Nat.le_refl _)).mono
      rintro e _ ⟨he, rfl | hmade⟩
      · exact ⟨he, htarget⟩
      · refine ⟨he, ?_⟩
        rw [hmade]
        intro hassignable
        cases hassignable

theorem Fits.assignment (h : deeper.Fits) :
    Keeps room deeper.assignment fun e =>
      (Tree.expr e).Bounded (room + 1) (mostLefts (room + 1)) := by
  apply (h.level operatorLevels room).bind
  rintro target ⟨htarget, hassignable⟩
  apply (keeps_accept? _).bind
  intro sign _
  split
  · exact keeps_pure htarget
  · apply (h.expression room).bind
    intro value hvalue
    split
    · rename_i hisTarget
      -- A value takes room, so there is some for the target as well.
      have hpositive := hvalue.depth_pos
      obtain ⟨most, hmost⟩ : ∃ most, mostLefts (room + 1) = most + 1 := by
        apply Nat.exists_eq_add_one.mpr
        rw [mostLefts]
        omega
      have htargets : mostLeftsOf 0 room ≤ most := by
        rw [mostLefts] at hmost
        rw [mostLeftsOf_zero]
        omega
      have hvalues : mostLefts room ≤ most + 1 := hmost ▸ mostLefts_mono (Nat.le_succ room)
      rw [hmost]
      apply keeps_pure
      apply Tree.Bounded.of_left rfl ((hassignable hisTarget).mono (Nat.le_refl _) htargets)
      exact List.forall_mem_singleton.mpr (hvalue.mono (Nat.le_refl _) hvalues)
    · exact yields_refuse _ _

theorem Fits.condition (h : deeper.Fits) :
    Keeps room deeper.condition fun e => (Tree.expr e).Bounded room (mostLefts room) := by
  apply (keeps_expect _ _).discard.bind
  intro _ _
  apply (h.expression room).bind
  intro condition hcondition
  apply (keeps_expect _ _).discard.bind
  intro _ _
  exact keeps_pure hcondition

theorem keeps_optionalSemicolon : Keeps room optionalSemicolon fun _ => True :=
  (keeps_accept? _).discard

theorem Fits.varDeclaration (h : deeper.Fits) :
    Keeps room deeper.varDeclaration fun s =>
      (Tree.stmt s).Bounded (room + 1) (mostLefts room) := by
  apply keeps_advance.bind
  intro first _
  apply (keeps_expect _ _).bind
  intro name _
  apply (keeps_following? (h.expression room)).bind
  intro initial hinitial
  apply keeps_optionalSemicolon.bind
  intro _ _
  exact keeps_pure (.of_inner rfl (by simpa [Tree.innerParts] using hinitial))

theorem Fits.conditional (h : deeper.Fits) :
    Keeps room deeper.conditional fun s =>
      (Tree.stmt s).Bounded (room + 1) (mostLefts room) := by
  apply keeps_advance.bind
  intro first _
  apply h.condition.bind
  intro condition hcondition
  apply (h.statement room).bind
  intro thenBranch hthen
  apply (keeps_following? (h.statement room)).bind
  intro elseBranch helse
  apply keeps_pure
  apply Tree.Bounded.of_inner rfl
  simpa [Tree.innerParts] using ⟨hcondition, hthen, helse⟩

theorem Fits.whileLoop (h : deeper.Fits) :
    Keeps room deeper.whileLoop fun s => (Tree.stmt s).Bounded (room + 1) (mostLefts room) := by
  apply keeps_advance.bind
  intro first _
  apply h.condition.bind
  intro condition hcondition
  apply (h.statement room).bind
  intro body hbody
  apply keeps_pure
  apply Tree.Bounded.of_inner rfl
  simpa [Tree.innerParts] using ⟨hcondition, hbody⟩

theorem Fits.returnValue (h : deeper.Fits) :
    Keeps room deeper.returnValue fun value =>
      ∀ e ∈ value, (Tree.expr e).Bounded room (mostLefts room) := by
  apply yields_peekKind_bind
  intro kind
  split
  · exact keeps_pure (by simp)
  · exact keeps_pure (by simp)
  · exact keeps_pure (by simp)
  · apply (h.expression room).bind
    intro value hvalue
    exact keeps_pure (by simpa using hvalue)

theorem Fits.returnStatement (h : deeper.Fits) :
    Keeps room deeper.returnStatement fun s =>
      (Tree.stmt s).Bounded (room + 1) (mostLefts room) := by
  apply keeps_advance.bind
  intro first _
  apply yields_get_bind
  intro c
  split
  · exact yields_refuse _ _
  · apply h.returnValue.bind
    intro value hvalue
    apply keeps_optionalSemicolon.bind
    intro _ _
    exact keeps_pure (.of_inner rfl (by simpa [Tree.innerParts] using hvalue))

theorem Fits.expressionStatement (h : deeper.Fits) :
    Keeps room deeper.expressionStatement fun s =>
      (Tree.stmt s).Bounded (room + 1) (mostLefts room) := by
  apply (h.expression room).bind
  intro value hvalue
  apply keeps_optionalSemicolon.bind
  intro _ _
  exact keeps_pure (.of_inner rfl (List.forall_mem_singleton.mpr hvalue))

theorem Fits.anyStatement (h : deeper.Fits) :
    Keeps room deeper.anyStatement fun s =>
      (Tree.stmt s).Bounded (room + 1) (mostLefts room) := by
  apply yields_peekKind_bind
  intro kind
  split
  · exact h.varDeclaration
  · apply yields_peekSecondKind_bind
    intro second
    split
    · apply h.function.bind
      intro read hbody
      exact keeps_pure (.of_inner rfl (List.forall_mem_map.mpr hbody))
    · exact h.expressionStatement
  · exact h.conditional
  · exact h.whileLoop
  · exact h.returnStatement
  · apply h.block.bind
    intro read hbody
    exact keeps_pure (.of_inner rfl (List.forall_mem_map.mpr hbody))
  · apply keeps_advance.bind
    intro token _
    exact keeps_pure (.of_inner rfl (List.forall_mem_nil _))
  · exact h.expressionStatement

/-- A statement takes one level itself, and what it holds has the rest of the room. -/
theorem Fits.aboveStatement (h : deeper.Fits) (room : Nat) :
    Keeps room deeper.above.statement fun s =>
      (Tree.stmt s).Bounded room (mostLefts (room - 1)) := by
  apply keeps_nested
  rintro rest rfl
  exact h.anyStatement

theorem Fits.above (h : deeper.Fits) : deeper.above.Fits := by
  refine ⟨fun room => ?_, fun room => ?_, fun room => ?_⟩
  · apply keeps_nested
    rintro rest rfl
    apply h.anyStatement.mono
    intro s hs
    exact hs.mono (Nat.le_refl _) (mostLefts_mono (Nat.le_succ rest))
  · apply keeps_nested
    rintro rest rfl
    exact h.assignment
  · apply keeps_deepened
    rintro rest rfl
    apply h.unary.mono
    intro e he
    apply he.mono (Nat.le_refl _)
    rw [mostLeftsOf_zero]
    exact Nat.add_le_add (mostLefts_mono (Nat.le_succ rest)) (Nat.le_succ rest)

theorem fits_ofAllowance (allowance : Nat) : (ofAllowance allowance).Fits := by
  induction allowance with
  | zero => exact ⟨fun _ => yields_tooDeep, fun _ => yields_tooDeep, fun _ => yields_tooDeep⟩
  | succ allowance ih => exact ih.above

theorem keeps_statement (allowance room : Nat) :
    Keeps room (ofAllowance allowance).statement fun s =>
      (Tree.stmt s).Bounded room (mostLefts (room - 1)) := by
  cases allowance with
  | zero => exact yields_tooDeep
  | succ allowance => exact (fits_ofAllowance allowance).aboveStatement room

end Deeper

/-- The statements of a program are bounded by the limit under which it is read. -/
theorem bounded_of_programWithin {limit : Nat} {tokens : List Token} {body : List Stmt}
    (h : programWithin limit tokens = .ok body) :
    ∀ s ∈ body, (Tree.stmt s).Bounded limit (mostLefts (limit - 1)) := by
  have hprogram : Keeps limit program fun body =>
      ∀ s ∈ body, (Tree.stmt s).Bounded limit (mostLefts (limit - 1)) := by
    apply yields_get_bind
    intro c
    apply yields_tokensLeft_bind
    intro bound
    exact keeps_manyUntil (Deeper.keeps_statement c.limit limit) bound
  unfold programWithin at h
  cases hread : program ⟨tokens, limit, 0, 0⟩ with
  | error d left =>
      rw [hread] at h
      cases h
  | ok statements left =>
      rw [hread] at h
      cases h
      obtain ⟨-, -, -, -, hbody⟩ :=
        hprogram ⟨tokens, limit, 0, 0⟩ (Nat.zero_add limit).symm body left hread
      exact hbody

end ScriptHost
