import ScriptHost.Program.Parser

/-!
The parser as plain recursive descent, watched while it runs. Nothing here bounds a repetition by
the tokens at hand or a level by the levels left: a loop goes on as long as its text does, a call
goes as deep as it goes, and only the numbers of rounds and levels that are given in advance end the
attempt without a result. Beside its result a descent gives every moment of its run, with the calls
that are active and the cursor as it is then.
-/

namespace ScriptHost

open ScriptHost.Parser

/-- The functions of the recursive descent. A level of operators has a number, which is one for the
tightest. -/
inductive Routine
  | program
  | statement
  | form
  | varDeclaration
  | functionDeclaration
  | conditional
  | whileLoop
  | returnStatement
  | expressionStatement
  | block
  | function
  | condition
  | expression
  | assignment
  | level (number : Nat)
  | unary
  | suffixed
  | primary
  | object
  deriving DecidableEq, Repr

/-- A call that has not returned: its function, and the depth it began at. -/
structure OpenCall where
  routine : Routine
  depth : Nat
  deriving DecidableEq, Repr

/-- What there is to see of a descent at one time: the active calls, the latest first, and the
cursor. -/
structure Moment where
  active : List OpenCall
  cursor : Cursor

/-- The cursor that a parser leaves, whether it accepts or refuses. -/
def cursorOf {α : Type} : EStateM.Result Diagnostic Cursor α → Cursor
  | .ok _ c => c
  | .error _ c => c

/-- The same result with another cursor. -/
def changing {α : Type} (change : Cursor → Cursor) :
    EStateM.Result Diagnostic Cursor α → EStateM.Result Diagnostic Cursor α
  | .ok a c => .ok a (change c)
  | .error d c => .error d (change c)

/-- Reads from a cursor inside of the active calls: the result with the moments up to it, or nothing
where the rounds or levels given in advance were too few. -/
def Descent (α : Type) : Type :=
  List OpenCall → Cursor → Option (EStateM.Result Diagnostic Cursor α × List Moment)

namespace Descent

variable {α β : Type}

/-- The first descent, and on its value the second. -/
def andThen (w : Descent α) (f : α → Descent β) : Descent β := fun active c =>
  match w active c with
  | none => none
  | some (.error d c, seen) => some (.error d c, seen)
  | some (.ok a c, seen) => (f a active c).map fun (result, later) => (result, seen ++ later)

instance : Monad Descent where
  pure a := fun _ c => some (.ok a c, [])
  bind := andThen

/-- The descent that comes to no result, for want of rounds or levels. -/
def lacking : Descent α := fun _ _ => none

/-- One look at the tokens or one change of the cursor. -/
def read (p : Parser α) : Descent α := fun active c =>
  some (p c, [⟨active, cursorOf (p c)⟩])

/-- Calls a function. -/
def call (routine : Routine) (w : Descent α) : Descent α := fun active c =>
  (w (⟨routine, c.depth⟩ :: active) c).map fun (result, seen) =>
    (result, ⟨⟨routine, c.depth⟩ :: active, c⟩ :: seen)

/-- Changes the cursor that a descent leaves, whether it accepts or refuses. -/
def leaving (change : Cursor → Cursor) (w : Descent α) : Descent α := fun active c =>
  (w active c).map fun (result, seen) =>
    (changing change result, seen ++ [⟨active, change (cursorOf result)⟩])

/-- One level deeper, also when it refuses. -/
def nested (w : Descent α) : Descent α := do
  read descend
  leaving (fun c => { c with depth := c.depth - 1 }) w

/-- One level deeper, which is left on success. -/
def deepened (w : Descent α) : Descent α := do
  read descend
  let a ← w
  read (modify fun c => { c with depth := c.depth - 1 })
  return a

/-- Back to the present level on success. -/
def restoringDepth (w : Descent α) : Descent α := do
  let depth := (← read get).depth
  let a ← w
  read (modify fun c => { c with depth := depth })
  return a

/-- Inside one more function body, also when it refuses. -/
def inFunction (w : Descent α) : Descent α := do
  read (modify fun c => { c with functionDepth := c.functionDepth + 1 })
  leaving (fun c => { c with functionDepth := c.functionDepth - 1 }) w

/-- Items up to a token of a closing kind. -/
def manyUntil (closes : TokenKind → Bool) (item : Descent α) : Nat → Descent (List α)
  | 0 => lacking
  | rounds + 1 => do
    if closes (← read peekKind) then return []
    let first ← item
    return first :: (← manyUntil closes item rounds)

/-- Items with commas between them. -/
def separated (item : Descent α) : Nat → Descent (List α)
  | 0 => lacking
  | rounds + 1 => do
    let first ← item
    match ← read (accept? .comma) with
    | some _ => return first :: (← separated item rounds)
    | none => return [first]

/-- Items with commas between them up to a token of a closing kind, which may come at once. -/
def separatedUntil (closing : TokenKind) (item : Descent α) (rounds : Nat) :
    Descent (List α) := do
  if (← read peekKind) = closing then return []
  separated item rounds

/-- What follows a sign, where there is the sign. -/
def following? (sign : TokenKind) (item : Descent α) : Descent (Option α) := do
  match ← read (accept? sign) with
  | some _ => return some (← item)
  | none => return none

/-- The descents of the constructs that lead one level deeper. -/
structure Deeper where
  statement : Descent Stmt
  expression : Descent Expr
  operand : Descent Expr

namespace Deeper

variable (rounds : Nat) (deeper : Deeper)

/-- Statements between braces. -/
def block : Descent (List Stmt × Span) := call .block do
  let first ← read (expect .leftBrace "expected `\x7b`")
  let closes (kind : TokenKind) : Bool := kind = .rightBrace || kind = .endOfText
  let body ← manyUntil closes deeper.statement rounds
  let last ← read (expect .rightBrace "expected `\x7d` to close block")
  return (body, first.span.through last.span)

/-- A function from its keyword on. -/
def function : Descent (FunctionCode × Span) := call .function do
  let first ← read advance
  let name := (← read (accept? .identifier)).map Token.lexeme
  read (discard <| expect .leftParen "expected `(` before parameters")
  let parameters ← separatedUntil .rightParen
    (read (expect .identifier "expected parameter name")) rounds
  read (discard <| expect .rightParen "expected `)` after parameters")
  let (body, span) ← inFunction (deeper.block rounds)
  return (⟨name, parameters.map Token.lexeme, body⟩, first.span.through span)

/-- The properties of an object literal. -/
def entries : Nat → Descent (List Entry)
  | 0 => lacking
  | rounds + 1 => do
    if (← read peekKind) = .rightBrace then return []
    let key ← read ScriptHost.Deeper.key
    read (discard <| expect .colon "expected `:` after property name")
    let value ← deeper.expression
    match ← read (accept? .comma) with
    | some _ => return ⟨key.lexeme, value⟩ :: (← entries rounds)
    | none => return [⟨key.lexeme, value⟩]

/-- An object literal from its opening brace on. -/
def object : Descent Expr := call .object do
  let first ← read advance
  let entries ← deeper.entries rounds
  let last ← read (expect .rightBrace "expected `\x7d` after object literal")
  return .object (first.span.through last.span) entries

/-- An expression without operators and suffixes. -/
def primary : Descent Expr := call .primary do
  match ← read peekKind with
  | .number =>
    let token ← read advance
    match readFloat? token.lexeme.toList with
    | some value => return .literal token.span (.number value)
    | none => read (refuse ("malformed number `" ++ token.lexeme ++ "`") token.span)
  | .string =>
    let token ← read advance
    return .literal token.span (.string token.lexeme)
  | .identifier =>
    let token ← read advance
    return .variable token.span token.lexeme
  | .keyword .this =>
    let token ← read advance
    return .this token.span
  | .keyword .function =>
    let (code, span) ← deeper.function rounds
    return .function span code
  | .leftParen =>
    read (discard advance)
    let inner ← deeper.expression
    read (discard <| expect .rightParen "expected `)` after expression")
    return inner
  | .leftBrace => deeper.object rounds
  | .keyword word =>
    match word.literal? with
    | some value =>
      let token ← read advance
      return .literal token.span value
    | none => read (refuseNext "expected expression")
  | _ => read (refuseNext "expected expression")

/-- Calls and member accesses that follow an expression. -/
def suffixes (args : Descent (List Expr)) : Nat → Expr → Descent Expr
  | 0, _ => lacking
  | rounds + 1, e => do
    match ← read peekKind with
    | .leftParen =>
      read (discard advance)
      read descend
      let arguments ← args
      let last ← read (expect .rightParen "expected `)` after arguments")
      suffixes args rounds (.call (e.span.through last.span) e arguments)
    | .dot =>
      read (discard advance)
      read descend
      let name ← read (expectProperty "expected property name after `.`")
      suffixes args rounds (.member (e.span.through name.span) e name.lexeme)
    | _ => return e

/-- An expression with its suffixes. -/
def suffixed : Descent Expr := call .suffixed do
  let e ← deeper.primary rounds
  restoringDepth (suffixes (separatedUntil .rightParen deeper.expression rounds) rounds e)

/-- An expression with the operators before it. -/
def unary : Descent Expr := call .unary do
  match unaryOp? (← read peekKind) with
  | some op =>
    let first ← read advance
    let operand ← deeper.operand
    return .unary (first.span.through operand.span) op operand
  | none => deeper.suffixed rounds

/-- Operators of one level with their right operands. -/
def operations (operators : List (TokenKind × Operator)) (operand : Descent Expr) :
    Nat → Expr → Descent Expr
  | 0, _ => lacking
  | rounds + 1, left => do
    match operators.lookup (← read peekKind) with
    | some op =>
      read (discard advance)
      read descend
      let right ← operand
      operations operators operand rounds (op.join left right)
    | none => return left

/-- An expression whose operators belong to the given levels. -/
def level : List (List (TokenKind × Operator)) → Descent Expr
  | [] => deeper.unary rounds
  | operators :: tighter => call (.level (tighter.length + 1)) do
    let left ← level tighter
    restoringDepth (operations operators (level tighter) rounds left)

/-- An expression, which may be an assignment. -/
def assignment : Descent Expr := call .assignment do
  let target ← deeper.level rounds operatorLevels
  match ← read (accept? .assign) with
  | none => return target
  | some sign =>
    let value ← deeper.expression
    if target.isAssignable then return .assign (target.span.through value.span) target value
    else read (refuse "invalid assignment target" sign.span)

/-- A condition between parentheses. -/
def condition : Descent Expr := call .condition do
  read (discard <| expect .leftParen "expected `(` before condition")
  let condition ← deeper.expression
  read (discard <| expect .rightParen "expected `)` after condition")
  return condition

/-- A variable declaration from its keyword on. -/
def varDeclaration : Descent Stmt := call .varDeclaration do
  let first ← read advance
  let name ← read (expect .identifier "expected variable name after `var`")
  let initial ← following? .assign deeper.expression
  read ScriptHost.Deeper.optionalSemicolon
  return .var (first.span.through ((initial.map Expr.span).getD name.span)) name.lexeme initial

/-- A function declaration from its keyword on. -/
def functionDeclaration : Descent Stmt := call .functionDeclaration do
  let (code, span) ← deeper.function rounds
  return .function span code

/-- A conditional statement from its keyword on. -/
def conditional : Descent Stmt := call .conditional do
  let first ← read advance
  let condition ← deeper.condition
  let thenBranch ← deeper.statement
  let elseBranch ← following? (.keyword .else) deeper.statement
  let last := (elseBranch.map Stmt.span).getD thenBranch.span
  return .conditional (first.span.through last) condition thenBranch elseBranch

/-- A loop from its keyword on. -/
def whileLoop : Descent Stmt := call .whileLoop do
  let first ← read advance
  let condition ← deeper.condition
  let body ← deeper.statement
  return .while (first.span.through body.span) condition body

/-- The value of a return, where there is one. -/
def returnValue : Descent (Option Expr) := do
  match ← read peekKind with
  | .semicolon | .rightBrace | .endOfText => return none
  | _ => return some (← deeper.expression)

/-- A return from its keyword on. -/
def returnStatement : Descent Stmt := call .returnStatement do
  let first ← read advance
  if (← read get).functionDepth = 0 then
    read (refuse "`return` outside of a function body" first.span)
  else
    let value ← deeper.returnValue
    read ScriptHost.Deeper.optionalSemicolon
    return .return (first.span.through ((value.map Expr.span).getD first.span)) value

/-- An expression that stands as a statement. -/
def expressionStatement : Descent Stmt := call .expressionStatement do
  let value ← deeper.expression
  read ScriptHost.Deeper.optionalSemicolon
  return .expression value.span value

/-- A statement of any form. -/
def anyStatement : Descent Stmt := call .form do
  match ← read peekKind with
  | .keyword .var => deeper.varDeclaration
  | .keyword .function =>
    if (← read peekSecondKind) = .identifier then deeper.functionDeclaration rounds
    else deeper.expressionStatement
  | .keyword .if => deeper.conditional
  | .keyword .while => deeper.whileLoop
  | .keyword .return => deeper.returnStatement
  | .leftBrace =>
    let (body, span) ← deeper.block rounds
    return .block span body
  | .semicolon =>
    let token ← read advance
    return .empty token.span
  | _ => deeper.expressionStatement

/-- The descents of one level, given those of the next. An operand is read by the same function as
what it is the operand of. -/
def above : Deeper where
  statement := call .statement (nested (deeper.anyStatement rounds))
  expression := call .expression (nested (deeper.assignment rounds))
  operand := deepened (deeper.unary rounds)

/-- The descents that may go down fewer levels than this. -/
def ofLevels : Nat → Deeper
  | 0 => ⟨lacking, lacking, lacking⟩
  | levels + 1 => (ofLevels levels).above rounds

end Deeper

/-- The statements of a whole program. -/
def program (rounds levels : Nat) : Descent (List Stmt) := call .program do
  manyUntil (· = .endOfText) (Deeper.ofLevels rounds levels).statement rounds

end Descent

end ScriptHost
