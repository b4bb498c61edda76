import ScriptHost.Proofs.Program.Grammar

/-!
What every tree that is read has in common: the targets of its assignments can be assigned to, its
function statements have names, it returns only from function bodies, and no conditional that could
still take an alternative stands before one.
-/

namespace ScriptHost

/-- An alternative after the statement would belong to a conditional in it. -/
def Stmt.isOpen : Stmt → Bool
  | .conditional _ _ _ none => true
  | .conditional _ _ _ (some elseBranch) => elseBranch.isOpen
  | .while _ _ body => body.isOpen
  | _ => false

mutual

/-- The expression may have been read from some text. -/
def Expr.Proper : Expr → Prop
  | .literal .. | .variable .. | .this _ => True
  | .binary _ _ left right | .logical _ _ left right => left.Proper ∧ right.Proper
  | .unary _ _ operand => operand.Proper
  | .assign _ target value => target.isAssignable = true ∧ target.Proper ∧ value.Proper
  | .call _ callee arguments => callee.Proper ∧ Expr.ProperAll arguments
  | .member _ owner _ => owner.Proper
  | .object _ entries => Entry.ProperAll entries
  | .function _ code => code.Proper

def Expr.ProperAll : List Expr → Prop
  | [] => True
  | e :: rest => e.Proper ∧ Expr.ProperAll rest

def Entry.Proper : Entry → Prop
  | ⟨_, value⟩ => value.Proper

def Entry.ProperAll : List Entry → Prop
  | [] => True
  | entry :: rest => entry.Proper ∧ Entry.ProperAll rest

/-- The statement may have been read from some text, in a function body or not. -/
def Stmt.Proper (inside : Bool) : Stmt → Prop
  | .var _ _ none => True
  | .var _ _ (some e) => e.Proper
  | .function _ code => code.name.isSome = true ∧ code.Proper
  | .expression _ value => value.Proper
  | .block _ body => Stmt.ProperAll inside body
  | .conditional _ condition thenBranch none => condition.Proper ∧ thenBranch.Proper inside
  | .conditional _ condition thenBranch (some elseBranch) =>
    condition.Proper ∧ thenBranch.Proper inside ∧ thenBranch.isOpen = false ∧
      elseBranch.Proper inside
  | .while _ condition body => condition.Proper ∧ body.Proper inside
  | .return _ none => inside = true
  | .return _ (some e) => inside = true ∧ e.Proper
  | .empty _ => True

def Stmt.ProperAll (inside : Bool) : List Stmt → Prop
  | [] => True
  | s :: rest => s.Proper inside ∧ Stmt.ProperAll inside rest

def FunctionCode.Proper : FunctionCode → Prop
  | ⟨_, _, body⟩ => Stmt.ProperAll true body

end

theorem Operator.proper_join (op : Operator) {left right : Expr} (hleft : left.Proper)
    (hright : right.Proper) : (op.join left right).Proper := by
  cases op <;> exact ⟨hleft, hright⟩

/-- What is written before a kind of token that comes next is proper, and no conditional in it is
left open before an alternative; a part that goes on from a left operand keeps that proper. -/
def Construct.Proper (inside : Bool) (next : TokenKind) : Construct → Prop
  | .statements body | .block body _ => Stmt.ProperAll inside body
  | .statement s | .form s =>
    s.Proper inside ∧ (next = .keyword .else → s.isOpen = false)
  | .function code _ => code.Proper
  | .operations _ _ left e | .suffixes left e => left.Proper → e.Proper
  | .arguments es | .items es => Expr.ProperAll es
  | .entries es => Entry.ProperAll es
  | .expression e | .assignment e | .level _ e | .operand e | .unary e | .suffixed e
  | .primary e => e.Proper

theorem Derives.proper {room : Nat} {inside : Bool} {next : TokenKind} {used : List Token}
    {construct : Construct} (h : Derives room inside next used construct) :
    construct.Proper inside next := by
  induction h with
  | statement _ ih | expression _ ih | assignment _ _ ih | level_nil _ ih | operand _ ih
  | unary_none _ _ ih | functionExpression _ ih | arguments _ ih | block _ _ _ ih
  | function _ _ _ _ _ _ ih | unary _ _ ih | parentheses _ _ _ ih | object _ _ _ ih => exact ih
  | statements_nil | arguments_nil | entries_nil | number | string | name | this | constant =>
      trivial
  | statements_cons _ _ ih ihrest => exact ⟨ih.1, ihrest⟩
  | var | empty => exact ⟨trivial, fun _ => rfl⟩
  | var_initial _ _ _ _ _ ih | expressionForm _ _ _ ih | blockForm _ ih => exact ⟨ih, fun _ => rfl⟩
  | functionForm _ hname ih => exact ⟨⟨by rw [hname]; rfl, ih⟩, fun _ => rfl⟩
  | conditional _ _ _ _ _ hnext ih ihbranch =>
      exact ⟨⟨ih, ihbranch.1⟩, fun heq => absurd heq hnext⟩
  | conditional_else _ _ _ _ _ _ _ ih ihbranch ihother =>
      exact ⟨⟨ih, ihbranch.1, ihbranch.2 rfl, ihother.1⟩, ihother.2⟩
  | whileLoop _ _ _ _ _ ih ihbody => exact ⟨⟨ih, ihbody.1⟩, ihbody.2⟩
  | returnForm => exact ⟨rfl, fun _ => rfl⟩
  | returnForm_value _ _ _ ih => exact ⟨⟨rfl, ih⟩, fun _ => rfl⟩
  | assignment_sign _ _ _ hassignable ih ihvalue => exact ⟨hassignable, ih, ihvalue⟩
  | level_cons _ _ ih ihchain | suffixed _ _ ih ihchain => exact ihchain ih
  | operations_nil | suffixes_nil => exact id
  | operations_cons _ _ _ _ ih ihchain =>
      exact fun hleft => ihchain (Operator.proper_join _ hleft ih)
  | suffixes_call _ _ _ _ ih ihchain => exact fun hleft => ihchain ⟨hleft, ih⟩
  | suffixes_member _ _ _ ihchain => exact fun hleft => ihchain hleft
  | items_one _ _ ih | entries_one _ _ _ _ ih => exact ⟨ih, trivial⟩
  | items_cons _ _ _ ih ihrest | entries_cons _ _ _ _ _ ih ihrest => exact ⟨ih, ihrest⟩

end ScriptHost
