import ScriptHost.Program.Tree

/-!
The work that a program makes. The work of a phrase bounds the steps that its evaluation takes
itself, those of the code it calls apart; the bodies of its functions are not evaluated with it and
count as nothing. A loop counts as one that is run through once.
-/

namespace ScriptHost

mutual

/-- The work of an expression. -/
def Expr.work : Expr → Nat
  | .literal _ _ | .variable _ _ | .this _ | .function _ _ => 2
  | .binary _ _ left right => left.work + right.work + 4
  | .logical _ _ left right => left.work + right.work + 3
  | .unary _ _ operand => operand.work + 3
  | .assign _ target value => target.work + value.work + 3
  | .call _ callee arguments => callee.work + Expr.workAll arguments + 6
  | .member _ owner _ => owner.work + 3
  | .object _ entries => Entry.workAll entries + 2

/-- The work of the arguments that are left. -/
def Expr.workAll : List Expr → Nat
  | [] => 0
  | e :: rest => e.work + Expr.workAll rest + 1

/-- The work of the properties that are left. -/
def Entry.workAll : List Entry → Nat
  | [] => 0
  | ⟨_, value⟩ :: rest => value.work + Entry.workAll rest + 1

end

/-- The work of an expression that may be missing. -/
def Expr.workOption : Option Expr → Nat
  | none => 0
  | some e => e.work

mutual

/-- The work of a statement. -/
def Stmt.work : Stmt → Nat
  | .var _ _ initial => Expr.workOption initial + 3
  | .function _ _ | .empty _ => 2
  | .expression _ e => e.work + 3
  | .block _ body => Stmt.workAll body + 3
  | .conditional _ condition thenBranch elseBranch =>
    condition.work + thenBranch.work + Stmt.workOption elseBranch + 3
  | .while _ condition body => condition.work + body.work + 4
  | .return _ value => Expr.workOption value + 3

/-- The work of the statements that are left. -/
def Stmt.workAll : List Stmt → Nat
  | [] => 0
  | s :: rest => s.work + Stmt.workAll rest + 2

/-- The work of a statement that may be missing. -/
def Stmt.workOption : Option Stmt → Nat
  | none => 0
  | some s => s.work

end

theorem Expr.work_pos (e : Expr) : 0 < e.work := by
  cases e <;> simp [work]

theorem Stmt.work_pos (s : Stmt) : 0 < s.work := by
  cases s <;> simp [work]

end ScriptHost
