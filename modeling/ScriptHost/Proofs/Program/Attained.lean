import ScriptHost.Proofs.Program.Nesting
import ScriptHost.Proofs.Program.Reads
import ScriptHost.Proofs.Token.Words

/-!
Programs as deep as the bound allows. On each level of nesting a chain of suffixes and one of every
level of operators is as long as there is room, and begins with an object literal that holds the next
level; the path to the left of all chains then takes every step to the left that is to be had.
-/

namespace ScriptHost

open ScriptHost.Parser

/-- A path leads from the expression down to a name in so many levels and steps to the left. -/
def Expr.Reaches (levels lefts : Nat) (e : Expr) : Prop :=
  ∃ (span : Span) (name : String),
    (Tree.expr e).Path (.expr (.variable span name)) levels lefts

/-- A path leads from the statement down to a name in so many levels and steps to the left. -/
def Stmt.Reaches (levels lefts : Nat) (s : Stmt) : Prop :=
  ∃ (span : Span) (name : String),
    (Tree.stmt s).Path (.expr (.variable span name)) levels lefts

theorem Expr.Reaches.of_left {e e' : Expr} {levels lefts : Nat} (h : e.Reaches levels lefts)
    (hpart : (Tree.expr e').leftPart? = some e) : e'.Reaches (levels + 1) (lefts + 1) := by
  obtain ⟨span, name, hpath⟩ := h
  exact ⟨span, name, .left hpart hpath⟩

/-- So many links of a chain, each a sign and a name. -/
def links (sign : TokenKind) : Nat → List TokenKind
  | 0 => []
  | count + 1 => sign :: .identifier :: links sign count

theorem le_length_links (sign : TokenKind) (count : Nat) : count ≤ (links sign count).length := by
  induction count with
  | zero => exact Nat.zero_le _
  | succ count ih =>
      rw [links, List.length_cons, List.length_cons]
      omega

theorem links_subset_vocabulary {sign : TokenKind} (hsign : sign ∈ vocabulary) (count : Nat) :
    links sign count ⊆ vocabulary := by
  induction count with
  | zero => exact List.nil_subset _
  | succ count ih =>
      exact List.cons_subset.mpr ⟨hsign, List.cons_subset.mpr ⟨by decide, ih⟩⟩

/-- The kinds that end an expression whose operators belong to these levels. -/
def Ends (groups : List (List (TokenKind × Operator))) (kind : TokenKind) : Prop :=
  kind ≠ .leftParen ∧ kind ≠ .dot ∧ ∀ operators ∈ groups, operators.lookup kind = none

instance (groups : List (List (TokenKind × Operator))) (kind : TokenKind) :
    Decidable (Ends groups kind) :=
  inferInstanceAs (Decidable (_ ∧ _ ∧ _))

/-- A sign of the first of these levels of operators, which no tighter one has. -/
structure Leads (sign : TokenKind) (operators : List (TokenKind × Operator))
    (tighter : List (List (TokenKind × Operator))) : Prop where
  operator : ∃ op : Operator, operators.lookup sign = some op
  ends : Ends tighter sign
  mem : sign ∈ vocabulary

/-- On each level of operators there is such a sign. -/
inductive Separate : List (List (TokenKind × Operator)) → Prop
  | nil : Separate []
  | cons {sign : TokenKind} {operators : List (TokenKind × Operator)}
      {tighter : List (List (TokenKind × Operator))} (h : Leads sign operators tighter)
      (hrest : Separate tighter) : Separate (operators :: tighter)

theorem separate_operatorLevels : Separate operatorLevels := by
  unfold operatorLevels
  apply @Separate.cons .doublePipe _ _ ⟨⟨_, rfl⟩, by decide, by decide⟩
  apply @Separate.cons .doubleAmpersand _ _ ⟨⟨_, rfl⟩, by decide, by decide⟩
  apply @Separate.cons .equalEqual _ _ ⟨⟨_, rfl⟩, by decide, by decide⟩
  apply @Separate.cons .lessEqual _ _ ⟨⟨_, rfl⟩, by decide, by decide⟩
  apply @Separate.cons .plus _ _ ⟨⟨_, rfl⟩, by decide, by decide⟩
  apply @Separate.cons .star _ _ ⟨⟨_, rfl⟩, by decide, by decide⟩
  exact Separate.nil

namespace Deeper

variable {deeper : Deeper} {room rest levels lefts : Nat} {kinds : List TokenKind}

theorem expectProperty_apply {c : Cursor} (message : String) (h : c.next.kind = .identifier) :
    expectProperty message c = .ok c.next c.taken := by
  have hkind : peekKind c = .ok c.next.kind c := rfl
  rw [h] at hkind
  exact (bind_of_ok hkind).trans (advance_apply c)

theorem key_apply {c : Cursor} (h : c.next.kind = .identifier) : key c = .ok c.next c.taken := by
  have hkind : peekKind c = .ok c.next.kind c := rfl
  rw [h] at hkind
  exact (bind_of_ok hkind).trans (expectProperty_apply _ h)

theorem reads_primary_name :
    Reads room room (fun _ => True) deeper.primary [.identifier] (Expr.Reaches 1 0) := by
  apply reads_peekKind_bind
  apply reads_advance_bind (by decide)
  intro token
  exact reads_pure ⟨_, _, .here _⟩

theorem reads_suffixes (count : Nat) {bound : List Token} {e : Expr}
    (he : e.Reaches levels lefts) (hbound : count ≤ bound.length) :
    Reads (rest + count) rest (Ends []) (deeper.suffixes bound e) (links .dot count)
      (Expr.Reaches (levels + count) (lefts + count)) := by
  induction count generalizing bound e levels lefts with
  | zero =>
      cases bound with
      | nil => exact reads_pure he
      | cons token bound =>
          apply reads_peekKind_bind_nil
          rintro kind ⟨hparen, hdot, -⟩
          split
          · exact absurd rfl hparen
          · exact absurd rfl hdot
          · exact reads_pure he
  | succ count ih =>
      obtain ⟨token, bound, rfl⟩ := List.exists_cons_of_length_pos (Nat.zero_lt_of_lt hbound)
      apply reads_peekKind_bind
      apply reads_discard_bind
      apply reads_advance_bind (by decide)
      intro _
      apply reads_descend_bind
      apply reads_bind_of_token (v := id) (fun _ hnext => expectProperty_apply _ hnext) (by decide)
      intro name
      rw [Nat.add_comm count 1, ← Nat.add_assoc, ← Nat.add_assoc]
      exact ih (he.of_left rfl) (Nat.le_of_succ_le_succ hbound)

theorem reads_operations {operators : List (TokenKind × Operator)} {operand : Parser Expr}
    {sign : TokenKind} {op : Operator} {ends ends' : TokenKind → Prop}
    (hsign : operators.lookup sign = some op) (hkind : sign ≠ .endOfText) (hends : ends sign)
    (hends' : ∀ kind, ends' kind → ends kind ∧ operators.lookup kind = none)
    (hoperand : ∀ room, Reads room room ends operand [.identifier] fun _ => True)
    (count : Nat) {bound : List Token} {left : Expr} (hleft : left.Reaches levels lefts)
    (hbound : count ≤ bound.length) :
    Reads (rest + count) rest ends' (operations operators operand bound left) (links sign count)
      (Expr.Reaches (levels + count) (lefts + count)) := by
  induction count generalizing bound left levels lefts with
  | zero =>
      cases bound with
      | nil => exact reads_pure hleft
      | cons token bound =>
          apply reads_peekKind_bind_nil
          intro kind hkind
          rw [(hends' kind hkind).2]
          exact reads_pure hleft
  | succ count ih =>
      obtain ⟨token, bound, rfl⟩ := List.exists_cons_of_length_pos (Nat.zero_lt_of_lt hbound)
      apply reads_peekKind_bind
      rw [hsign]
      apply reads_discard_bind
      apply reads_advance_bind hkind
      intro _
      apply reads_descend_bind
      rw [Nat.add_comm count 1, ← Nat.add_assoc, ← Nat.add_assoc]
      change Reads _ _ _ _ ([.identifier] ++ links sign count) _
      apply Reads.bind (hoperand _)
      · intro right _
        exact ih (hleft.of_left (Tree.leftPart?_join op left right)) (Nat.le_of_succ_le_succ hbound)
      · intro after hafter
        cases count with
        | zero => exact (hends' _ hafter).1
        | succ count => exact hends

theorem reads_suffixed {count : Nat} (hcount : count ≤ room)
    (h : Reads room room (fun _ => True) deeper.primary kinds (Expr.Reaches levels lefts)) :
    Reads room room (Ends []) deeper.suffixed (kinds ++ links .dot count)
      (Expr.Reaches (levels + count) (lefts + count)) := by
  obtain ⟨rest, rfl⟩ := Nat.exists_eq_add_of_le' hcount
  apply Reads.bind h
  · intro e he
    apply Reads.restoringDepth
    apply reads_tokensLeft_bind
    intro bound hbound
    exact reads_suffixes count he (Nat.le_trans (le_length_links .dot count) hbound)
  · exact fun _ _ => trivial

/-- Where no operator comes first, the suffixes are those of the whole. -/
theorem reads_unary {count : Nat} {first : TokenKind} (hfirst : unaryOp? first = none)
    (hcount : count ≤ room)
    (h : Reads room room (fun _ => True) deeper.primary (first :: kinds)
      (Expr.Reaches levels lefts)) :
    Reads room room (Ends []) deeper.unary (first :: kinds ++ links .dot count)
      (Expr.Reaches (levels + count) (lefts + count)) := by
  apply reads_peekKind_bind
  rw [hfirst]
  exact reads_suffixed hcount h

theorem reads_level_cons {sign : TokenKind} {operators : List (TokenKind × Operator)}
    {tighter : List (List (TokenKind × Operator))} (h : Leads sign operators tighter)
    (hname : ∀ room, Reads room room (Ends tighter) (deeper.level tighter) [.identifier] fun _ => True)
    (hleft : Reads room room (Ends tighter) (deeper.level tighter) kinds (Expr.Reaches levels lefts))
    {count : Nat} (hcount : count ≤ room) :
    Reads room room (Ends (operators :: tighter)) (deeper.level (operators :: tighter))
      (kinds ++ links sign count) (Expr.Reaches (levels + count) (lefts + count)) := by
  obtain ⟨rest, rfl⟩ := Nat.exists_eq_add_of_le' hcount
  obtain ⟨op, hop⟩ := h.operator
  have hkind : sign ≠ .endOfText := by
    rintro rfl
    exact absurd h.mem (by decide)
  have hends : ∀ kind, Ends (operators :: tighter) kind →
      Ends tighter kind ∧ operators.lookup kind = none := by
    rintro kind ⟨hparen, hdot, hnone⟩
    obtain ⟨hfirst, hnone⟩ := List.forall_mem_cons.mp hnone
    exact ⟨⟨hparen, hdot, hnone⟩, hfirst⟩
  apply Reads.bind hleft
  · intro left hleft
    apply Reads.restoringDepth
    apply reads_tokensLeft_bind
    intro bound hbound
    exact reads_operations hop hkind h.ends hends hname count hleft
      (Nat.le_trans (le_length_links sign count) hbound)
  · intro after hafter
    cases count with
    | zero => exact (hends _ hafter).1
    | succ count => exact h.ends

theorem reads_level_name {groups : List (List (TokenKind × Operator))} (h : Separate groups)
    (room : Nat) :
    Reads room room (Ends groups) (deeper.level groups) [.identifier] (Expr.Reaches 1 0) := by
  induction h generalizing room with
  | nil =>
      have hunary : Reads room room (Ends []) deeper.unary ([.identifier] ++ links .dot 0)
          (Expr.Reaches 1 0) := reads_unary rfl (Nat.zero_le room) reads_primary_name
      exact hunary
  | cons h _ ih =>
      exact reads_level_cons h (fun room => (ih room).mono fun _ _ => trivial) (ih room)
        (Nat.zero_le room)

/-- The chains of all levels of operators and of the suffixes are as long as there is room. -/
theorem exists_reads_level {groups : List (List (TokenKind × Operator))} (h : Separate groups)
    {first : TokenKind} (hfirst : unaryOp? first = none)
    (hwords : first :: kinds ⊆ vocabulary)
    (hprimary : Reads room room (fun _ => True) deeper.primary (first :: kinds)
      (Expr.Reaches levels lefts))
    {count : Nat} (hcount : count ≤ (groups.length + 1) * room) :
    ∃ kinds' : List TokenKind, kinds' ⊆ vocabulary ∧
      Reads room room (Ends groups) (deeper.level groups) kinds'
        (Expr.Reaches (levels + count) (lefts + count)) := by
  induction h generalizing count with
  | nil =>
      rw [List.length_nil, Nat.zero_add, Nat.one_mul] at hcount
      refine ⟨_, ?_, reads_unary hfirst hcount hprimary⟩
      exact List.append_subset.mpr ⟨hwords, links_subset_vocabulary (by decide) count⟩
  | cons h hrest ih =>
      rename_i sign operators tighter
      rw [List.length_cons, Nat.succ_mul (tighter.length + 1)] at hcount
      obtain ⟨inner, outer, rfl, hinner, houter⟩ : ∃ inner outer, count = inner + outer ∧
          inner ≤ (tighter.length + 1) * room ∧ outer ≤ room :=
        ⟨count - min count room, min count room, by omega, by omega, by omega⟩
      obtain ⟨kinds', hwords', hread⟩ := ih hinner
      have hname : ∀ room, Reads room room (Ends tighter) (deeper.level tighter) [.identifier]
          fun _ => True :=
        fun room => (reads_level_name hrest room).mono fun _ _ => trivial
      refine ⟨kinds' ++ links sign outer, ?_, ?_⟩
      · exact List.append_subset.mpr ⟨hwords', links_subset_vocabulary h.mem outer⟩
      · rw [← Nat.add_assoc, ← Nat.add_assoc]
        exact reads_level_cons h hname hread houter

/-- An expression that no assignment follows. -/
theorem reads_assignment {P : Expr → Prop}
    (h : Reads room room (Ends operatorLevels) (deeper.level operatorLevels) kinds P) :
    Reads room room (fun kind => Ends operatorLevels kind ∧ kind ≠ .assign) deeper.assignment
      kinds P := by
  rw [← List.append_nil kinds]
  apply Reads.bind h
  · intro target htarget
    apply reads_accept?_bind_nil
    · rintro ⟨-, hassign⟩
      exact hassign rfl
    · exact reads_pure htarget
  · exact fun _ hafter => hafter.1

/-- A property with an expression for its value, as the only one of an object. -/
theorem reads_entries {P : Expr → Prop}
    (h : Reads room room (fun kind => Ends operatorLevels kind ∧ kind ≠ .assign) deeper.expression
      kinds P) {bound : List Token} (hbound : 0 < bound.length) :
    Reads room room (· = .rightBrace) (deeper.entries bound) (.identifier :: .colon :: kinds)
      fun entries => ∃ (key : String) (value : Expr), entries = [⟨key, value⟩] ∧ P value := by
  obtain ⟨token, bound, rfl⟩ := List.exists_cons_of_length_pos hbound
  apply reads_peekKind_bind
  rw [if_neg (by decide)]
  apply reads_bind_of_token (v := id) (fun _ hnext => key_apply hnext) (by decide)
  intro key
  apply reads_discard_bind
  apply reads_expect_bind (by decide)
  intro _
  rw [← List.append_nil kinds]
  apply Reads.bind h
  · intro value hvalue
    apply reads_accept?_bind_nil (by decide)
    exact reads_pure ⟨key.lexeme, value, rfl, hvalue⟩
  · rintro after hafter
    rw [List.nil_append, hafter]
    decide

theorem reads_primary_object
    (h : Reads room room (fun kind => Ends operatorLevels kind ∧ kind ≠ .assign) deeper.expression
      kinds (Expr.Reaches levels lefts)) :
    Reads room room (fun _ => True) deeper.primary
      (.leftBrace :: .identifier :: .colon :: kinds ++ [.rightBrace])
      (Expr.Reaches (levels + 1) lefts) := by
  apply reads_peekKind_bind
  apply reads_advance_bind (by decide)
  intro first
  apply reads_tokensLeft_bind
  intro bound hbound
  have hpositive : 0 < bound.length := Nat.lt_of_lt_of_le (by simp) hbound
  apply Reads.bind (reads_entries h hpositive)
  · rintro _ ⟨key, value, rfl, span, name, hpath⟩
    apply reads_expect_bind (by decide)
    intro last
    exact reads_pure ⟨span, name, .inner List.mem_cons_self hpath⟩
  · exact fun _ _ => rfl

/-- An expression that is as deep as the room and its steps to the left allow together. -/
theorem exists_reads_expression {room allowance lefts : Nat} (hallowance : room ≤ allowance)
    (hlefts : lefts ≤ mostLefts (room + 1)) :
    ∃ kinds : List TokenKind, kinds ⊆ vocabulary ∧
      Reads (room + 1) (room + 1) (fun kind => Ends operatorLevels kind ∧ kind ≠ .assign)
        (ofAllowance (allowance + 1)).expression kinds (Expr.Reaches (room + 1 + lefts) lefts) := by
  induction room generalizing allowance lefts with
  | zero =>
      obtain rfl : lefts = 0 := Nat.le_zero.mp hlefts
      exact ⟨[.identifier], by decide,
        (reads_assignment (reads_level_name separate_operatorLevels 0)).nested⟩
  | succ room ih =>
      obtain ⟨allowance, rfl⟩ : ∃ less, allowance = less + 1 :=
        Nat.exists_eq_add_one.mpr (Nat.zero_lt_of_lt hallowance)
      rw [mostLefts] at hlefts
      obtain ⟨inner, outer, rfl, hinner, houter⟩ : ∃ inner outer, lefts = inner + outer ∧
          inner ≤ mostLefts (room + 1) ∧ outer ≤ 7 * (room + 1) :=
        ⟨min lefts (mostLefts (room + 1)), lefts - min lefts (mostLefts (room + 1)), by omega,
          by omega, by omega⟩
      obtain ⟨kinds, hwords, hread⟩ := ih (Nat.le_of_succ_le_succ hallowance) hinner
      have hobject : [.leftBrace, .identifier, .colon] ++ kinds ++ [.rightBrace] ⊆ vocabulary :=
        List.append_subset.mpr ⟨List.append_subset.mpr ⟨by decide, hwords⟩, by decide⟩
      obtain ⟨whole, hwhole, hlevel⟩ := exists_reads_level separate_operatorLevels rfl hobject
        (reads_primary_object hread) houter
      have hlevels : room + 1 + 1 + (inner + outer) = room + 1 + inner + 1 + outer := by omega
      rw [hlevels]
      exact ⟨whole, hwhole, (reads_assignment hlevel).nested⟩

/-- A declaration that begins with such an expression. -/
theorem reads_statement
    (h : Reads room room (fun kind => Ends operatorLevels kind ∧ kind ≠ .assign) deeper.expression
      kinds (Expr.Reaches levels lefts)) :
    Reads (room + 1) (room + 1) (fun _ => True) deeper.above.statement
      ([.keyword .var, .identifier, .assign] ++ kinds ++ [.semicolon])
      (Stmt.Reaches (levels + 1) lefts) := by
  apply Reads.nested
  apply reads_peekKind_bind
  apply reads_advance_bind (by decide)
  intro first
  apply reads_expect_bind (by decide)
  intro name
  change Reads _ _ _ _ ((.assign :: kinds) ++ [.semicolon]) _
  have hinitial : Reads room room (fun kind => Ends operatorLevels kind ∧ kind ≠ .assign)
      (following? .assign deeper.expression) (.assign :: kinds)
      fun initial => ∃ e : Expr, initial = some e ∧ e.Reaches levels lefts := by
    apply reads_accept?_bind (by decide)
    intro _
    rw [← List.append_nil kinds]
    apply Reads.bind h
    · intro e he
      exact reads_pure ⟨e, rfl, he⟩
    · exact fun _ hafter => hafter
  apply Reads.bind hinitial
  · rintro _ ⟨e, rfl, span, target, hpath⟩
    apply reads_discard_bind
    apply reads_accept?_bind (by decide)
    intro _
    exact reads_pure ⟨span, target, .inner List.mem_cons_self hpath⟩
  · intro after _
    change Ends operatorLevels .semicolon ∧ TokenKind.semicolon ≠ .assign
    decide

end Deeper

/-- A list of one item up to the end. -/
theorem reads_manyUntil {α : Type} {closes : TokenKind → Bool} {item : Parser α} {room : Nat}
    {first : TokenKind} {kinds : List TokenKind} {P : α → Prop}
    (h : Reads room room (fun _ => True) item (first :: kinds) P) (hfirst : closes first = false)
    {bound : List Token} (hbound : 0 < bound.length) :
    Reads room room (fun kind => closes kind = true) (manyUntil closes item bound) (first :: kinds)
      fun items => ∃ a : α, items = [a] ∧ P a := by
  obtain ⟨token, bound, rfl⟩ := List.exists_cons_of_length_pos hbound
  apply reads_peekKind_bind
  rw [hfirst, if_neg (by decide), ← List.append_nil (first :: kinds)]
  apply Reads.bind h
  · intro a ha
    have hend : Reads room room (fun kind => closes kind = true) (manyUntil closes item bound) []
        fun items => items = [] := by
      cases bound with
      | nil => exact reads_pure rfl
      | cons token bound =>
          apply reads_peekKind_bind_nil
          intro kind hkind
          rw [if_pos hkind]
          exact reads_pure rfl
    rw [← List.append_nil []]
    apply Reads.bind hend
    · rintro _ rfl
      exact reads_pure ⟨a, rfl, ha⟩
    · exact fun _ hafter => hafter
  · exact fun _ _ => trivial

/-- A program that is as deep as the limit and its steps to the left allow together. -/
theorem exists_programWithin {room lefts : Nat} (hlefts : lefts ≤ mostLefts (room + 1)) :
    ∃ kinds : List TokenKind, kinds ⊆ vocabulary ∧
      ∀ tokens : List Token, tokens.map Token.kind = kinds ++ [.endOfText] →
        ∃ s : Stmt, programWithin (room + 2) tokens = .ok [s] ∧
          s.Reaches (room + 2 + lefts) lefts := by
  obtain ⟨kinds, hwords, hread⟩ := Deeper.exists_reads_expression (Nat.le_refl room) hlefts
  refine ⟨[.keyword .var, .identifier, .assign] ++ kinds ++ [.semicolon], ?_, ?_⟩
  · exact List.append_subset.mpr ⟨List.append_subset.mpr ⟨by decide, hwords⟩, by decide⟩
  · intro tokens htokens
    have hprogram : Reads (room + 2) (room + 2) (fun kind => decide (kind = .endOfText) = true)
        (manyUntil (· = .endOfText) (Deeper.ofAllowance (room + 2)).statement tokens)
        ([.keyword .var, .identifier, .assign] ++ kinds ++ [.semicolon])
        fun body => ∃ s : Stmt, body = [s] ∧ s.Reaches (room + 1 + lefts + 1) lefts := by
      apply reads_manyUntil (Deeper.reads_statement hread) rfl
      have hlength := congrArg List.length htokens
      rw [List.length_map, List.length_append] at hlength
      simp at hlength
      omega
    obtain ⟨_, left, hbody, -, -, -, s, rfl, hreaches⟩ :=
      hprogram ⟨tokens, room + 2, 0, 0⟩ [.endOfText] (Nat.zero_add _).symm htokens rfl
    have hrun : program ⟨tokens, room + 2, 0, 0⟩ = .ok [s] left := hbody
    have hlevels : room + 2 + lefts = room + 1 + lefts + 1 := by omega
    refine ⟨s, ?_, hlevels ▸ hreaches⟩
    unfold programWithin
    rw [hrun]

/-- For as many steps to the left as the limit leaves room for, some text holds a path of that many
levels beyond the limit. -/
theorem exists_source_of_lefts {lefts : Nat} (h : lefts ≤ mostLefts (maxTreeDepth - 1)) :
    ∃ (source : String) (s : Stmt), (programOfSource source .empty).1 = .ok [s] ∧
      s.Reaches (maxTreeDepth + lefts) lefts := by
  have hlefts : lefts ≤ mostLefts (94 + 1) := h
  obtain ⟨kinds, hwords, hprogram⟩ := exists_programWithin hlefts
  obtain ⟨text, hscan⟩ := exists_text_of_subset hwords
  obtain ⟨tokens, htokens, hkinds⟩ := hscan text 0 0 .empty rfl
  obtain ⟨s, hbody, hreaches⟩ := hprogram tokens hkinds
  refine ⟨String.ofList text, s, ?_, hreaches⟩
  change (scanFrom (String.ofList text).toList 0 .empty).1 >>= programOfTokens = _
  rw [String.toList_ofList, htokens]
  exact hbody

end ScriptHost
