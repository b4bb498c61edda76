import ScriptHost.Text.Span

/-!
Trees of accepted programs. Every expression and statement carries the span of the source text it
was read from.
-/

namespace ScriptHost

/-- Constants written in a program. -/
inductive Literal
  | number (value : Float)
  | string (value : String)
  | bool (value : Bool)
  | null
  | undefined

/-- Operators that evaluate both operands. -/
inductive BinaryOp
  | add
  | sub
  | mul
  | div
  | mod
  | equal
  | notEqual
  | strictEqual
  | strictNotEqual
  | less
  | lessEqual
  | greater
  | greaterEqual
  deriving DecidableEq, Repr

/-- Operators that evaluate the right operand only where the left one does not decide. -/
inductive LogicalOp
  | and
  | or
  deriving DecidableEq, Repr

/-- Operators before their one operand. -/
inductive UnaryOp
  | negate
  | not
  | typeOf
  deriving DecidableEq, Repr

mutual

/-- Expressions. -/
inductive Expr
  | literal (span : Span) (value : Literal)
  | variable (span : Span) (name : String)
  | this (span : Span)
  | binary (span : Span) (op : BinaryOp) (left right : Expr)
  | logical (span : Span) (op : LogicalOp) (left right : Expr)
  | unary (span : Span) (op : UnaryOp) (operand : Expr)
  | assign (span : Span) (target value : Expr)
  | call (span : Span) (callee : Expr) (arguments : List Expr)
  | member (span : Span) (owner : Expr) (property : String)
  | object (span : Span) (entries : List Entry)
  | function (span : Span) (code : FunctionCode)

/-- One property of an object literal. -/
structure Entry where
  key : String
  value : Expr

/-- Statements. -/
inductive Stmt
  | var (span : Span) (name : String) (initial : Option Expr)
  | function (span : Span) (code : FunctionCode)
  | expression (span : Span) (value : Expr)
  | block (span : Span) (body : List Stmt)
  | conditional (span : Span) (condition : Expr) (thenBranch : Stmt) (elseBranch : Option Stmt)
  | while (span : Span) (condition : Expr) (body : Stmt)
  | return (span : Span) (value : Option Expr)
  | empty (span : Span)

/-- What a function is made of: its name if it has one, its parameters and its statements. -/
structure FunctionCode where
  name : Option String
  parameters : List String
  body : List Stmt

end

/-- Where an expression stands in the source text. -/
def Expr.span : Expr → Span
  | .literal s _ | .variable s _ | .this s | .binary s _ _ _ | .logical s _ _ _ | .unary s _ _
  | .assign s _ _ | .call s _ _ | .member s _ _ | .object s _ | .function s _ => s

/-- Where a statement stands in the source text. -/
def Stmt.span : Stmt → Span
  | .var s _ _ | .function s _ | .expression s _ | .block s _ | .conditional s _ _ _ | .while s _ _
  | .return s _ | .empty s => s

/-- The expressions that may stand on the left of an assignment. -/
def Expr.isAssignable : Expr → Bool
  | .variable _ _ | .member _ _ _ => true
  | _ => false

/-- An operator between two operands, of either sort. -/
inductive Operator
  | binary (op : BinaryOp)
  | logical (op : LogicalOp)
  deriving DecidableEq, Repr

/-- The expression that joins two operands. -/
def Operator.join : Operator → Expr → Expr → Expr
  | .binary op, left, right => .binary (left.span.through right.span) op left right
  | .logical op, left, right => .logical (left.span.through right.span) op left right

end ScriptHost
