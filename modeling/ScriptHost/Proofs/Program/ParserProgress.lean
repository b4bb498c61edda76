import Mathlib.Order.Interval.Finset.Nat
import ScriptHost.Proofs.Program.Between
import ScriptHost.Proofs.Program.Following

/-!
The parser as a whole. Each of its functions, called anywhere in a token list that has its end and
at any depth there is, comes to an end as plain recursive descent does, moves on when it accepts and
gives back both counters; and at no moment are there more calls than the levels allow.
-/

namespace ScriptHost

open ScriptHost.Parser

theorem follows_key {tokens : List Token} {rounds room rank : Nat} {level : Prop} :
    Follows tokens rounds room rank level (Descent.read Deeper.key) Deeper.key 1 :=
  follows_read Deeper.stays_key fun _ _ _ hend hd => .of_before (Deeper.before_of_key hd hend).1

theorem follows_optionalSemicolon {tokens : List Token} {rounds room rank : Nat} {level : Prop} :
    Follows tokens rounds room rank level (Descent.read Deeper.optionalSemicolon)
      Deeper.optionalSemicolon 0 :=
  (follows_accept? .semicolon).discard

/-- The descents of one level follow the parsers of one level. A descent that begins with a call is
of a rank above that of the function called, here and in the rules below. -/
structure Descent.Deeper.Follow (tokens : List Token) (rounds room : Nat) (w : Descent.Deeper)
    (p : ScriptHost.Deeper) : Prop where
  statement : Follows tokens rounds room 1 True w.statement p.statement 1
  expression : Follows tokens rounds room 1 True w.expression p.expression 1
  operand : Follows tokens rounds room 0 True w.operand p.operand 1

namespace Descent.Deeper.Follow

variable {tokens : List Token} {rounds room : Nat} {w : Descent.Deeper} {p : ScriptHost.Deeper}

theorem block (h : w.Follow tokens rounds room p) :
    Follows tokens rounds room 2 True (w.block rounds) p.block 1 := by
  refine Follows.call ?_ (by decide) (by decide)
  refine (follows_expect (by decide) _).seq fun first => ?_
  refine h.statement.manyUntil.repeated fun body => ?_
  exact (follows_expect (by decide) _).seq fun last => follows_pure _

theorem function (h : w.Follow tokens rounds room p) :
    Follows tokens rounds room 3 True (w.function rounds) p.function 1 := by
  refine Follows.call ?_ (by decide) (by decide)
  refine follows_advance.seq fun first => ?_
  refine (follows_accept? _).seq fun name => ?_
  refine (follows_expect (by decide) _).discard.seq fun _ => ?_
  refine ((follows_expect (by decide) _).separatedUntil _).seq fun parameters => ?_
  refine (follows_expect (by decide) _).discard.seq fun _ => ?_
  exact h.block.inFunction.seq fun body => follows_pure _

theorem entries (h : w.Follow tokens rounds room p) :
    Follows tokens rounds room 1 True (w.entries rounds) (tokensLeft >>= p.entries) 0 := by
  refine follows_repetition (fun times (_ : Unit) => w.entries times)
    (fun bound _ => p.entries bound) ?_ ()
  intro times left token bound hle hrest s
  refine follows_peekKind fun kind => ?_
  by_cases hcloses : kind = .rightBrace
  · rw [if_pos hcloses, if_pos hcloses]
    exact follows_pure []
  · rw [if_neg hcloses, if_neg hcloses]
    refine follows_key.step fun key => ?_
    refine (follows_expect (by decide) _).discard.seq fun _ => ?_
    have hexpression := h.expression.fewer (Nat.le_of_succ_le hle)
    refine hexpression.seq fun value => (follows_accept? _).seq fun comma => ?_
    cases comma with
    | none => exact follows_pure _
    | some _ => exact (hrest s).seq fun others => follows_pure _

theorem object (h : w.Follow tokens rounds room p) :
    Follows tokens rounds room 2 True (w.object rounds) (do
      let first ← advance
      let entries ← p.entries (← tokensLeft)
      let last ← expect .rightBrace "expected `\x7d` after object literal"
      return .object (first.span.through last.span) entries) 1 := by
  refine Follows.call ?_ (by decide) (by decide)
  refine follows_advance.seq fun first => h.entries.repeated fun entries => ?_
  exact (follows_expect (by decide) _).seq fun last => follows_pure _

theorem primary (h : w.Follow tokens rounds room p) :
    Follows tokens rounds room 4 True (w.primary rounds) p.primary 1 := by
  refine Follows.call ?_ (by decide) (by decide)
  refine follows_of_peekKind fun kind c hc hkind => ?_
  have hexpression := h.expression.raise (by decide : 1 ≤ 3)
  cases kind with
  | number =>
      refine (followsAt_advance hc.toOn (by simp [hkind])).seq hc fun token => ?_
      cases hvalue : readFloat? token.lexeme.toList with
      | some value => exact follows_pure _
      | none => exact follows_refuse _ _
  | string =>
      exact (followsAt_advance hc.toOn (by simp [hkind])).seq hc fun token => follows_pure _
  | identifier =>
      exact (followsAt_advance hc.toOn (by simp [hkind])).seq hc fun token => follows_pure _
  | leftParen =>
      refine (follows_advance.discard c hc).seq hc fun _ => hexpression.seq fun inner => ?_
      exact (follows_expect (by decide) _).discard.seq fun _ => follows_pure inner
  | leftBrace => exact h.object.raise (by decide) c hc
  | keyword word =>
      cases word with
      | this =>
          exact (followsAt_advance hc.toOn (by simp [hkind])).seq hc fun token => follows_pure _
      | function => exact (h.function.seq fun code => follows_pure _) c hc
      | «true» | «false» | null | undefined =>
          exact (followsAt_advance hc.toOn (by simp [hkind])).seq hc fun token => follows_pure _
      | _ => exact follows_refuseNext _ c hc
  | _ => exact follows_refuseNext _ c hc

theorem suffixes (h : w.Follow tokens rounds room p) (e : Expr) :
    Follows tokens rounds room 0 False
      (Deeper.suffixes (separatedUntil .rightParen w.expression rounds) rounds e)
      (tokensLeft >>= fun bound => p.suffixes bound e) 0 := by
  have hexpression := h.expression.raise (by decide : 1 ≤ Routine.ranks)
  have harguments := (hexpression.separatedUntil .rightParen).narrow.loosen False
  refine follows_repetition _ _ (fun times left token bound hle hrest e => ?_) e
  have hagain : ∀ e, Follows tokens left (room - 1) Routine.ranks False
      (Deeper.suffixes (separatedUntil .rightParen w.expression rounds) times e)
      (p.suffixes bound e) 0 :=
    fun e => (hrest e).narrow.raise (Nat.zero_le _)
  refine follows_peekKind fun kind => ?_
  cases kind with
  | leftParen =>
      refine follows_advance.discard.seq fun _ => Follows.descend ?_
      refine (harguments.fewer hle).seq fun arguments => ?_
      exact (follows_expect (by decide) _).step fun last => hagain _
  | dot =>
      refine follows_advance.discard.seq fun _ => Follows.descend ?_
      exact (follows_expectProperty _).step fun name => hagain _
  | _ => exact follows_pure e

theorem suffixed (h : w.Follow tokens rounds room p) :
    Follows tokens rounds room 5 True (w.suffixed rounds) p.suffixed 1 := by
  refine Follows.call ?_ (by decide) (by decide)
  refine h.primary.seq fun e => ?_
  exact (h.suffixes e).restoringDepth.raise (Nat.zero_le _)

theorem unary (h : w.Follow tokens rounds room p) :
    Follows tokens rounds room 6 True (w.unary rounds) p.unary 1 := by
  refine Follows.call ?_ (by decide) (by decide)
  refine follows_peekKind fun kind => ?_
  cases hop : unaryOp? kind with
  | some op =>
      refine follows_advance.seq fun first => ?_
      exact (h.operand.raise (Nat.zero_le _)).seq fun operand => follows_pure _
  | none => exact h.suffixed

theorem operations {operators : List (TokenKind × Operator)} {operand : Descent Expr}
    {parser : Parser Expr} {rank : Nat}
    (hoperand : Follows tokens rounds room rank True operand parser 1)
    (hrank : rank ≤ Routine.ranks) (left : Expr) :
    Follows tokens rounds room 0 False (Deeper.operations operators operand rounds left)
      (tokensLeft >>= fun bound => ScriptHost.Deeper.operations operators parser bound left) 0 := by
  refine follows_repetition _ _ (fun times fewer token bound hle hrest left => ?_) left
  refine follows_peekKind fun kind => ?_
  cases hoperator : operators.lookup kind with
  | some op =>
      refine follows_advance.discard.seq fun _ => Follows.descend ?_
      have hright := (hoperand.narrow.loosen False).raise hrank
      refine (hright.fewer hle).step fun right => ?_
      exact (hrest _).narrow.raise (Nat.zero_le _)
  | none => exact follows_pure left

theorem level (h : w.Follow tokens rounds room p) (groups : List (List (TokenKind × Operator)))
    (hgroups : groups.length ≤ operatorLevels.length) :
    Follows tokens rounds room (6 + groups.length) True (w.level rounds groups) (p.level groups)
      1 := by
  have hlength : operatorLevels.length = 6 := rfl
  induction groups with
  | nil => exact h.unary
  | cons operators tighter ih =>
      rw [List.length_cons] at hgroups
      have hoperand := ih (by omega)
      refine Follows.call ?_ (show 5 + (tighter.length + 1) < 6 + (tighter.length + 1) by omega)
        (show 5 + (tighter.length + 1) < 13 by omega)
      refine (hoperand.raise
        (show 6 + tighter.length ≤ 5 + (tighter.length + 1) by omega)).seq fun left => ?_
      have hranks : 6 + tighter.length ≤ Routine.ranks := by
        unfold Routine.ranks
        omega
      exact (operations hoperand hranks left).restoringDepth.raise (Nat.zero_le _)

theorem assignment (h : w.Follow tokens rounds room p) :
    Follows tokens rounds room 13 True (w.assignment rounds) p.assignment 1 := by
  refine Follows.call ?_ (by decide) (by decide)
  refine (h.level operatorLevels (Nat.le_refl _)).seq fun target => ?_
  refine (follows_accept? _).seq fun found => ?_
  cases found with
  | none => exact follows_pure target
  | some sign =>
      refine (h.expression.raise (by decide)).seq fun value => ?_
      by_cases htarget : target.isAssignable = true
      · rw [if_pos htarget, if_pos htarget]
        exact follows_pure _
      · rw [if_neg htarget, if_neg htarget]
        exact follows_refuse _ _

theorem condition (h : w.Follow tokens rounds room p) :
    Follows tokens rounds room 2 True w.condition p.condition 1 := by
  refine Follows.call ?_ (by decide) (by decide)
  refine (follows_expect (by decide) _).discard.seq fun _ => h.expression.seq fun condition => ?_
  exact (follows_expect (by decide) _).discard.seq fun _ => follows_pure condition

theorem varDeclaration (h : w.Follow tokens rounds room p) :
    Follows tokens rounds room 2 True w.varDeclaration p.varDeclaration 1 := by
  refine Follows.call ?_ (by decide) (by decide)
  refine follows_advance.seq fun first => (follows_expect (by decide) _).seq fun name => ?_
  refine h.expression.following?.seq fun initial => ?_
  exact follows_optionalSemicolon.seq fun _ => follows_pure _

theorem functionDeclaration (h : w.Follow tokens rounds room p) :
    Follows tokens rounds room 4 True (w.functionDeclaration rounds) (do
      let (code, span) ← p.function
      return .function span code) 1 :=
  Follows.call (h.function.seq fun _ => follows_pure _) (by decide) (by decide)

theorem conditional (h : w.Follow tokens rounds room p) :
    Follows tokens rounds room 3 True w.conditional p.conditional 1 := by
  refine Follows.call ?_ (by decide) (by decide)
  have hstatement := h.statement.raise (by decide : 1 ≤ 2)
  refine follows_advance.seq fun first => h.condition.seq fun condition => ?_
  refine hstatement.seq fun thenBranch => hstatement.following?.seq fun elseBranch => ?_
  exact follows_pure _

theorem whileLoop (h : w.Follow tokens rounds room p) :
    Follows tokens rounds room 3 True w.whileLoop p.whileLoop 1 := by
  refine Follows.call ?_ (by decide) (by decide)
  refine follows_advance.seq fun first => h.condition.seq fun condition => ?_
  exact (h.statement.raise (by decide)).seq fun body => follows_pure _

theorem returnValue (h : w.Follow tokens rounds room p) :
    Follows tokens rounds room 1 True w.returnValue p.returnValue 0 := by
  refine follows_peekKind fun kind => ?_
  have hvalue : Follows tokens rounds room 1 True (w.expression >>= fun e => pure (some e))
      (p.expression >>= fun e => pure (some e)) 0 :=
    h.expression.seq fun e => follows_pure (some e)
  cases kind with
  | semicolon | rightBrace | endOfText => exact follows_pure none
  | _ => exact hvalue

theorem returnStatement (h : w.Follow tokens rounds room p) {c : Cursor}
    (hc : c.Ready tokens rounds room) (hkind : c.next.kind ≠ .endOfText) :
    FollowsAt tokens 2 w.returnStatement p.returnStatement (c.Gains 1 True) c := by
  refine FollowsAt.call hc.toOn (by decide) (by decide) ?_
  refine (followsAt_advance hc.toOn hkind).seq hc fun first => ?_
  refine follows_look (fun _ => ⟨_, rfl⟩) fun here => ?_
  by_cases hfunction : here.functionDepth = 0
  · rw [if_pos hfunction, if_pos hfunction]
    exact follows_refuse _ _
  · rw [if_neg hfunction, if_neg hfunction]
    exact h.returnValue.seq fun value => follows_optionalSemicolon.seq fun _ => follows_pure _

theorem expressionStatement (h : w.Follow tokens rounds room p) :
    Follows tokens rounds room 2 True w.expressionStatement p.expressionStatement 1 := by
  refine Follows.call ?_ (by decide) (by decide)
  exact h.expression.seq fun value => follows_optionalSemicolon.seq fun _ => follows_pure _

theorem anyStatement (h : w.Follow tokens rounds room p) :
    Follows tokens rounds room 5 True (w.anyStatement rounds) p.anyStatement 1 := by
  refine Follows.call ?_ (by decide) (by decide)
  refine follows_of_peekKind fun kind c hc hkind => ?_
  have hexpression := h.expressionStatement.raise (by decide : 2 ≤ 4)
  cases kind with
  | keyword word =>
      cases word with
      | var => exact h.varDeclaration.raise (by decide) c hc
      | function =>
          refine follows_look (fun _ => ⟨_, rfl⟩) (fun second => ?_) c hc
          by_cases hname : second = .identifier
          · rw [if_pos hname, if_pos hname]
            exact h.functionDeclaration
          · rw [if_neg hname, if_neg hname]
            exact hexpression
      | «if» => exact h.conditional.raise (by decide) c hc
      | «while» => exact h.whileLoop.raise (by decide) c hc
      | «return» =>
          exact (h.returnStatement hc (by simp [hkind])).raise (by decide) fun _ => id
      | _ => exact hexpression c hc
  | leftBrace => exact (h.block.raise (by decide)).seq (fun body => follows_pure _) c hc
  | semicolon =>
      exact (followsAt_advance hc.toOn (by simp [hkind])).seq hc fun token => follows_pure _
  | _ => exact hexpression c hc

theorem above (h : w.Follow tokens rounds room p) :
    (w.above rounds).Follow tokens rounds (room + 1) p.above where
  statement :=
    Follows.call (Follows.nested (h.anyStatement.raise (by decide))) (by decide) (by decide)
  expression :=
    Follows.call (Follows.nested (h.assignment.raise (by decide))) (by decide) (by decide)
  operand := Follows.deepened (h.unary.raise (by decide))

end Descent.Deeper.Follow

namespace Parser

variable {α : Type} {c : Cursor}

theorem nested_of_full (h : ¬ c.depth < c.limit) (p : Parser α) : nested p c = tooDeep c :=
  error_of_bind (descend_of_full h)

theorem deepened_of_full (h : ¬ c.depth < c.limit) (p : Parser α) : deepened p c = tooDeep c :=
  error_of_bind (descend_of_full h)

end Parser

namespace Descent.Deeper

variable {tokens : List Token} {rounds room : Nat}

/-- A call that would enter a level where there is no room is refused. -/
theorem follows_call_of_full {α : Type} {routine : Routine} {w : Descent α} {p : Parser α}
    (hroutine : routine.rank = 0) (hp : ∀ c : Cursor, ¬ c.depth < c.limit → p c = tooDeep c) :
    Follows tokens rounds 0 1 True (call routine (nested w)) p 1 := by
  intro c hc
  have hfull : ¬ c.depth < c.limit := Nat.not_lt_of_le hc.room
  refine FollowsAt.call hc.toOn (by omega) (by rw [hroutine]; decide) ?_
  rw [hroutine]
  exact (FollowsAt.nested hc.toOn fun hdeeper => absurd hdeeper.depth_le hfull).congr
    ((hp c hfull).trans (nested_of_full hfull tooDeep).symm)

/-- Where there is no room, nothing is read. -/
theorem follow_of_full (w : Descent.Deeper) {p : ScriptHost.Deeper}
    (hp : ∀ c : Cursor, ¬ c.depth < c.limit →
      p.statement c = tooDeep c ∧ p.expression c = tooDeep c ∧ p.operand c = tooDeep c) :
    (w.above rounds).Follow tokens rounds 0 p where
  statement := follows_call_of_full rfl fun c hfull => (hp c hfull).1
  expression := follows_call_of_full rfl fun c hfull => (hp c hfull).2.1
  operand := by
    intro c hc
    have hfull : ¬ c.depth < c.limit := Nat.not_lt_of_le hc.room
    exact (FollowsAt.deepened hc.toOn fun hdeeper => absurd hdeeper.depth_le hfull).congr
      ((hp c hfull).2.2.trans (deepened_of_full hfull tooDeep).symm)

/-- With more levels in advance than there is room for, the descents follow the parsers that may go
down as far as there is room. -/
theorem follow_ofLevels {levels allowance : Nat} (hlevels : room < levels)
    (hallowance : room ≤ allowance) :
    (ofLevels rounds levels).Follow tokens rounds room
      (ScriptHost.Deeper.ofAllowance allowance) := by
  induction room generalizing levels allowance with
  | zero =>
      obtain ⟨levels, rfl⟩ := Nat.exists_eq_add_of_le' hlevels
      refine follow_of_full _ fun c hfull => ?_
      cases allowance with
      | zero => exact ⟨rfl, rfl, rfl⟩
      | succ allowance =>
          exact ⟨nested_of_full hfull _, nested_of_full hfull _, deepened_of_full hfull _⟩
  | succ room ih =>
      obtain ⟨levels, rfl⟩ := Nat.exists_eq_add_of_le' (Nat.le_trans (Nat.le_add_left 1 _) hlevels)
      obtain ⟨allowance, rfl⟩ :=
        Nat.exists_eq_add_of_le' (Nat.le_trans (Nat.le_add_left 1 _) hallowance)
      exact (ih (Nat.lt_of_succ_lt_succ hlevels) (Nat.le_of_succ_le_succ hallowance)).above

end Descent.Deeper

theorem length_le_of_increasing {l : List Nat} (hordered : l.Pairwise (· < ·)) (low high : Nat)
    (hbounds : ∀ x ∈ l, low ≤ x ∧ x < high) : l.length ≤ high - low := by
  have hnodup : l.Nodup := hordered.imp fun hless => Nat.ne_of_lt hless
  rw [← List.toFinset_card_of_nodup hnodup, ← Nat.card_Ico]
  exact Finset.card_le_card fun x hx => Finset.mem_Ico.mpr (hbounds x (List.mem_toFinset.mp hx))

namespace Descends

variable {limit height : Nat} {calls : List OpenCall}

theorem length_le (h : Descends limit height calls) : calls.length ≤ height := by
  have hordered : (calls.map (OpenCall.height limit)).Pairwise (· < ·) :=
    List.pairwise_map.mpr h.ordered
  have hlength := length_le_of_increasing hordered 0 height fun x hx => by
    obtain ⟨call, hcall, rfl⟩ := List.mem_map.mp hx
    exact ⟨Nat.zero_le _, (h.bounded call hcall).2⟩
  simpa using hlength

/-- Calls on one level are of functions of different rank. -/
theorem length_level_le (h : Descends limit height calls) (depth : Nat) :
    (calls.filter fun call => call.depth = depth).length ≤ Routine.ranks := by
  have hordered : ((calls.filter fun call => call.depth = depth).map
      (OpenCall.height limit)).Pairwise (· < ·) :=
    List.pairwise_map.mpr (h.ordered.sublist List.filter_sublist)
  have hlength := length_le_of_increasing hordered (Routine.ranks * (limit - depth))
    (Routine.ranks * (limit - depth) + Routine.ranks) fun x hx => by
      obtain ⟨call, hcall, rfl⟩ := List.mem_map.mp hx
      obtain ⟨hcall, hdepth⟩ := List.mem_filter.mp hcall
      have hrank := (h.bounded call hcall).1
      rw [OpenCall.height, of_decide_eq_true hdepth]
      omega
  simpa using hlength

end Descends

/-- What holds at every moment of a call that was made at the cursor. The cursor has gone on, not
past the end of the text. The depth is between that at the beginning and the limit, and at least as
many function bodies are open as then. On one level so many calls are active at most, and so many on
all levels together. -/
structure Moment.Bounded (c : Cursor) (m : Moment) : Prop where
  ahead : m.cursor.remaining <:+ c.remaining
  ends : m.cursor.HasEnd
  depth_ge : c.depth ≤ m.cursor.depth
  depth_le : m.cursor.depth ≤ maxTreeDepth
  functionDepth_ge : c.functionDepth ≤ m.cursor.functionDepth
  level : ∀ depth, (m.active.filter fun call => call.depth = depth).length ≤ Routine.ranks
  calls : m.active.length ≤ Routine.ranks * (maxTreeDepth + 1 - c.depth)

namespace Descent

variable {α : Type} {tokens : List Token} {rank : Nat} {w : Descent α} {p : Parser α} {c : Cursor}
  {Q : Cursor → Prop}

/-- The descent ends with the result of the parser, and all is well at its moments. -/
def Ends (w : Descent α) (p : Parser α) (c : Cursor) : Prop :=
  ∃ seen, w [] c = some (p c, seen) ∧ ∀ m ∈ seen, m.Bounded c

/-- The descent ends with the result of the parser. Where that accepts, it has taken a token at
least, the end of the text is still to come, and both counters are what they were. -/
structure Progresses (w : Descent α) (p : Parser α) (c : Cursor) : Prop where
  ends : w.Ends p c
  forward : ∀ a d, p c = .ok a d →
    d.remaining <:+ c.remaining ∧ d.remaining.length < c.remaining.length ∧ d.HasEnd
  balanced : ∀ a d, p c = .ok a d → d.depth = c.depth ∧ d.functionDepth = c.functionDepth

theorem bounded_of_since {m : Moment} (hlimit : c.limit = maxTreeDepth) (hdepth : c.depth ≤ c.limit)
    (hrank : rank ≤ Routine.ranks) (h : m.Since tokens rank [] c) : m.Bounded c := by
  obtain ⟨made, hactive, hmade⟩ := h.calls
  rw [List.append_nil] at hactive
  subst hactive
  refine ⟨h.onward.suffix, h.on.ends, h.onward.depth, ?_, h.onward.functionDepth,
    hmade.length_level_le, ?_⟩
  · rw [← hlimit, ← h.onward.limit]
    exact h.on.depth_le
  · refine Nat.le_trans hmade.length_le ?_
    rw [← hlimit]
    unfold Routine.ranks at hrank ⊢
    omega

theorem ends_of_followsAt (hlimit : c.limit = maxTreeDepth) (hdepth : c.depth ≤ c.limit)
    (hrank : rank ≤ Routine.ranks) (h : FollowsAt tokens rank w p Q c) : w.Ends p c := by
  obtain ⟨seen, hrun, hseen⟩ := h.runs []
  exact ⟨seen, hrun, fun m hm => bounded_of_since hlimit hdepth hrank (hseen m hm)⟩

theorem progresses_of_followsAt (hlimit : c.limit = maxTreeDepth) (hdepth : c.depth ≤ c.limit)
    (hrank : rank ≤ Routine.ranks) (h : FollowsAt tokens rank w p (c.Gains 1 True) c) :
    w.Progresses p c where
  ends := ends_of_followsAt hlimit hdepth hrank h
  forward a d hd := by
    have hon := h.on
    have honward := h.onward
    rw [hd] at hon honward
    exact ⟨honward.suffix, (h.accepts a d hd).tokens, hon.ends⟩
  balanced a d hd := ⟨(h.accepts a d hd).depth trivial, (h.accepts a d hd).functionDepth⟩

end Descent

/-- What is left of a list that has its end last has its end. -/
theorem Cursor.HasEnd.of_suffix {front : List Token} {last : Token} {c : Cursor}
    (hlast : last.kind = .endOfText) (hc : c.remaining <:+ front ++ [last])
    (hsome : c.remaining ≠ []) : c.HasEnd := by
  obtain ⟨rest, t, hremaining⟩ := (List.eq_nil_or_concat c.remaining).resolve_left hsome
  obtain ⟨used, hused⟩ := hc
  rw [hremaining, List.concat_eq_append, ← List.append_assoc] at hused
  obtain ⟨-, hsame⟩ := List.append_inj' hused rfl
  obtain rfl := List.singleton_inj.mp hsame
  exact ⟨t, by simp [hremaining], hlast⟩

/-- Wherever the cursor stands in a token list that has its end as its last token, and on whatever
level there is, the parsers of statements, blocks and expressions and of each level of operators,
operands, suffixes and primary expressions end as plain recursive descent does, given a round for
each token left and a level more than there is room for. Where they accept they have moved on and
both counters are what they were; at every moment the depth is within its limits and only so many
calls are active, at most 1261. So does the reading of a whole program end. -/
theorem parsers_progress {front : List Token} {last : Token} (hlast : last.kind = .endOfText)
    {c : Cursor} (hc : c.remaining <:+ front ++ [last]) (hsome : c.remaining ≠ [])
    (hlimit : c.limit = maxTreeDepth) (hdepth : c.depth ≤ maxTreeDepth)
    {rounds levels allowance : Nat} (hrounds : c.remaining.length ≤ rounds)
    (hlevels : maxTreeDepth < c.depth + levels) (hallowance : maxTreeDepth ≤ c.depth + allowance) :
    let w := Descent.Deeper.ofLevels rounds levels
    let p := Deeper.ofAllowance allowance
    w.statement.Progresses p.statement c ∧
    (w.block rounds).Progresses p.block c ∧
    w.expression.Progresses p.expression c ∧
    (∀ groups, groups <:+ operatorLevels → (w.level rounds groups).Progresses (p.level groups) c) ∧
    (w.unary rounds).Progresses p.unary c ∧
    (w.suffixed rounds).Progresses p.suffixed c ∧
    (w.primary rounds).Progresses p.primary c ∧
    (Descent.program rounds levels).Ends program c := by
  intro w p
  have hon : c.On (front ++ [last]) := ⟨hc, .of_suffix hlast hc hsome, hlimit ▸ hdepth⟩
  have hready : c.Ready (front ++ [last]) rounds (maxTreeDepth - c.depth) :=
    ⟨hon, hrounds, by rw [hlimit]; omega⟩
  have hfollow : w.Follow (front ++ [last]) rounds (maxTreeDepth - c.depth) p :=
    Descent.Deeper.follow_ofLevels (by omega) (by omega)
  have hprogresses : ∀ {α : Type} {rank : Nat} {v : Descent α} {q : Parser α},
      Follows (front ++ [last]) rounds (maxTreeDepth - c.depth) rank True v q 1 →
        rank ≤ Routine.ranks → v.Progresses q c :=
    fun h hrank => Descent.progresses_of_followsAt hlimit hon.depth_le hrank (h c hready)
  refine ⟨hprogresses hfollow.statement (by decide), hprogresses hfollow.block (by decide),
    hprogresses hfollow.expression (by decide), ?_, hprogresses hfollow.unary (by decide),
    hprogresses hfollow.suffixed (by decide), hprogresses hfollow.primary (by decide), ?_⟩
  · intro groups hgroups
    have hlength : groups.length ≤ 6 := hgroups.length_le
    refine hprogresses (hfollow.level groups hlength) ?_
    unfold Routine.ranks
    omega
  · have hwhole : (Descent.Deeper.ofLevels rounds levels).Follow (front ++ [last]) rounds
        (maxTreeDepth - c.depth) (Deeper.ofAllowance c.limit) :=
      Descent.Deeper.follow_ofLevels (by omega) (by omega)
    have hprogram : FollowsAt (front ++ [last]) 2 (Descent.program rounds levels) program
        (c.Gains 0 True) c :=
      FollowsAt.call hon (by decide) (by decide)
        ((hwhole.statement.manyUntil c hready).congr rfl)
    exact Descent.ends_of_followsAt hlimit hon.depth_le (by decide) hprogram

/-- The block in `f{a;}` two levels above the limit and inside of a function body, read with two
levels left. -/
theorem parsers_progress_near_limit :
    let front : List Token := [⟨.identifier, "f", ⟨0, 1⟩⟩, ⟨.leftBrace, "\x7b", ⟨1, 2⟩⟩,
      ⟨.identifier, "a", ⟨2, 3⟩⟩, ⟨.semicolon, ";", ⟨3, 4⟩⟩, ⟨.rightBrace, "\x7d", ⟨4, 5⟩⟩]
    let c : Cursor := ⟨front.tail ++ [.ofEnd 5], maxTreeDepth, 94, 1⟩
    ((Descent.Deeper.ofLevels 5 3).block 5).Progresses (Deeper.ofAllowance 2).block c ∧
    (Deeper.ofAllowance 2).block c =
      .ok ([.expression ⟨2, 3⟩ (.variable ⟨2, 3⟩ "a")], ⟨1, 5⟩)
        ⟨[.ofEnd 5], maxTreeDepth, 94, 1⟩ := by
  intro front c
  have hsuffix : c.remaining <:+ front ++ [.ofEnd 5] := ⟨[⟨.identifier, "f", ⟨0, 1⟩⟩], rfl⟩
  have hprogress := parsers_progress (c := c) rfl hsuffix (by simp [c]) rfl (by decide)
    (by decide : c.remaining.length ≤ 5) (by decide : maxTreeDepth < c.depth + 3)
    (by decide : maxTreeDepth ≤ c.depth + 2)
  exact ⟨hprogress.2.1, rfl⟩

end ScriptHost
