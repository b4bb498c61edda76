import ScriptHost.Numeric.Decimal
import ScriptHost.Program.Cursor
import ScriptHost.Program.Tree
import ScriptHost.Token.Lexer

/-!
From tokens to trees. A construct that nests is read with the parsers for one level less, down to
the level at which everything is refused for being nested too deeply; each production is then a
plain function of the parsers for the next level.
-/

namespace ScriptHost

open ScriptHost.Parser

/-- The parsers of the constructs that lead one level deeper. -/
structure Deeper where
  statement : Parser Stmt
  expression : Parser Expr
  operand : Parser Expr

/-- Operators between operands, from the loosest to the tightest. -/
def operatorLevels : List (List (TokenKind × Operator)) :=
  [[(.doublePipe, .logical .or)],
   [(.doubleAmpersand, .logical .and)],
   [(.equalEqual, .binary .equal), (.bangEqual, .binary .notEqual),
    (.equalEqualEqual, .binary .strictEqual), (.bangEqualEqual, .binary .strictNotEqual)],
   [(.lessEqual, .binary .lessEqual), (.greaterEqual, .binary .greaterEqual),
    (.less, .binary .less), (.greater, .binary .greater)],
   [(.plus, .binary .add), (.minus, .binary .sub)],
   [(.star, .binary .mul), (.slash, .binary .div), (.percent, .binary .mod)]]

/-- The constant that a reserved word stands for. -/
def Keyword.literal? : Keyword → Option Literal
  | .true => some (.bool Bool.true)
  | .false => some (.bool Bool.false)
  | .null => some .null
  | .undefined => some .undefined
  | _ => none

/-- The operator that a token before its operand stands for. -/
def unaryOp? : TokenKind → Option UnaryOp
  | .minus => some .negate
  | .bang => some .not
  | .keyword .typeOf => some .typeOf
  | _ => none

namespace Deeper

variable (deeper : Deeper)

/-- Statements between braces, with the span from brace to brace. -/
def block : Parser (List Stmt × Span) := do
  let first ← expect .leftBrace "expected `\x7b`"
  let closes (kind : TokenKind) : Bool := kind = .rightBrace || kind = .endOfText
  let body ← manyUntil closes deeper.statement (← tokensLeft)
  let last ← expect .rightBrace "expected `\x7d` to close block"
  return (body, first.span.through last.span)

/-- A function from its keyword on. -/
def function : Parser (FunctionCode × Span) := do
  let first ← advance
  let name := (← accept? .identifier).map Token.lexeme
  discard <| expect .leftParen "expected `(` before parameters"
  let parameters ← separatedUntil .rightParen (expect .identifier "expected parameter name")
  discard <| expect .rightParen "expected `)` after parameters"
  let (body, span) ← inFunction deeper.block
  return (⟨name, parameters.map Token.lexeme, body⟩, first.span.through span)

/-- The name of a property in an object literal. -/
def key : Parser Token := do
  match ← peekKind with
  | .string | .number => advance
  | _ => expectProperty "expected property name"

/-- An object literal from its opening brace on; a comma may follow the last property. -/
def entries : List Token → Parser (List Entry)
  | [] => return []
  | _ :: bound => do
    if (← peekKind) = .rightBrace then return []
    let key ← key
    discard <| expect .colon "expected `:` after property name"
    let value ← deeper.expression
    match ← accept? .comma with
    | some _ => return ⟨key.lexeme, value⟩ :: (← entries bound)
    | none => return [⟨key.lexeme, value⟩]

/-- An expression without operators and suffixes. -/
def primary : Parser Expr := do
  match ← peekKind with
  | .number =>
    let token ← advance
    match readFloat? token.lexeme.toList with
    | some value => return .literal token.span (.number value)
    | none => refuse ("malformed number `" ++ token.lexeme ++ "`") token.span
  | .string =>
    let token ← advance
    return .literal token.span (.string token.lexeme)
  | .identifier =>
    let token ← advance
    return .variable token.span token.lexeme
  | .keyword .this =>
    let token ← advance
    return .this token.span
  | .keyword .function =>
    let (code, span) ← deeper.function
    return .function span code
  | .leftParen =>
    discard advance
    let inner ← deeper.expression
    discard <| expect .rightParen "expected `)` after expression"
    return inner
  | .leftBrace =>
    let first ← advance
    let entries ← deeper.entries (← tokensLeft)
    let last ← expect .rightBrace "expected `\x7d` after object literal"
    return .object (first.span.through last.span) entries
  | .keyword word =>
    match word.literal? with
    | some value =>
      let token ← advance
      return .literal token.span value
    | none => refuseNext "expected expression"
  | _ => refuseNext "expected expression"

/-- Calls and member accesses that follow an expression, each one level deeper than the last. -/
def suffixes : List Token → Expr → Parser Expr
  | [], e => return e
  | _ :: bound, e => do
    match ← peekKind with
    | .leftParen =>
      discard advance
      descend
      let arguments ← separatedUntil .rightParen deeper.expression
      let last ← expect .rightParen "expected `)` after arguments"
      suffixes bound (.call (e.span.through last.span) e arguments)
    | .dot =>
      discard advance
      descend
      let name ← expectProperty "expected property name after `.`"
      suffixes bound (.member (e.span.through name.span) e name.lexeme)
    | _ => return e

/-- An expression with its suffixes. -/
def suffixed : Parser Expr := do
  let e ← deeper.primary
  restoringDepth do deeper.suffixes (← tokensLeft) e

/-- An expression with the operators before it. -/
def unary : Parser Expr := do
  match unaryOp? (← peekKind) with
  | some op =>
    let first ← advance
    let operand ← deeper.operand
    return .unary (first.span.through operand.span) op operand
  | none => deeper.suffixed

/-- Operators of one level with their right operands, each one level deeper than the last. -/
def operations (operators : List (TokenKind × Operator)) (operand : Parser Expr) :
    List Token → Expr → Parser Expr
  | [], left => return left
  | _ :: bound, left => do
    match operators.lookup (← peekKind) with
    | some op =>
      discard advance
      descend
      let right ← operand
      operations operators operand bound (op.join left right)
    | none => return left

/-- An expression whose operators belong to the given levels. -/
def level : List (List (TokenKind × Operator)) → Parser Expr
  | [] => deeper.unary
  | operators :: tighter => do
    let left ← level tighter
    restoringDepth do operations operators (level tighter) (← tokensLeft) left

/-- An expression, which may be an assignment. -/
def assignment : Parser Expr := do
  let target ← deeper.level operatorLevels
  match ← accept? .assign with
  | none => return target
  | some sign =>
    let value ← deeper.expression
    if target.isAssignable then return .assign (target.span.through value.span) target value
    else refuse "invalid assignment target" sign.span

/-- A condition between parentheses. -/
def condition : Parser Expr := do
  discard <| expect .leftParen "expected `(` before condition"
  let condition ← deeper.expression
  discard <| expect .rightParen "expected `)` after condition"
  return condition

/-- Takes a semicolon if there is one. -/
def optionalSemicolon : Parser Unit :=
  discard <| accept? .semicolon

/-- A variable declaration from its keyword on. -/
def varDeclaration : Parser Stmt := do
  let first ← advance
  let name ← expect .identifier "expected variable name after `var`"
  let initial ← following? .assign deeper.expression
  optionalSemicolon
  return .var (first.span.through ((initial.map Expr.span).getD name.span)) name.lexeme initial

/-- A conditional statement from its keyword on. -/
def conditional : Parser Stmt := do
  let first ← advance
  let condition ← deeper.condition
  let thenBranch ← deeper.statement
  let elseBranch ← following? (.keyword .else) deeper.statement
  let last := (elseBranch.map Stmt.span).getD thenBranch.span
  return .conditional (first.span.through last) condition thenBranch elseBranch

/-- A loop from its keyword on. -/
def whileLoop : Parser Stmt := do
  let first ← advance
  let condition ← deeper.condition
  let body ← deeper.statement
  return .while (first.span.through body.span) condition body

/-- The value of a return, where there is one. -/
def returnValue : Parser (Option Expr) := do
  match ← peekKind with
  | .semicolon | .rightBrace | .endOfText => return none
  | _ => return some (← deeper.expression)

/-- A return from its keyword on, which only function bodies may hold. -/
def returnStatement : Parser Stmt := do
  let first ← advance
  if (← get).functionDepth = 0 then
    refuse "`return` outside of a function body" first.span
  else
    let value ← deeper.returnValue
    optionalSemicolon
    return .return (first.span.through ((value.map Expr.span).getD first.span)) value

/-- An expression that stands as a statement. -/
def expressionStatement : Parser Stmt := do
  let value ← deeper.expression
  optionalSemicolon
  return .expression value.span value

/-- A statement of any form. -/
def anyStatement : Parser Stmt := do
  match ← peekKind with
  | .keyword .var => deeper.varDeclaration
  | .keyword .function =>
    if (← peekSecondKind) = .identifier then
      let (code, span) ← deeper.function
      return .function span code
    else deeper.expressionStatement
  | .keyword .if => deeper.conditional
  | .keyword .while => deeper.whileLoop
  | .keyword .return => deeper.returnStatement
  | .leftBrace =>
    let (body, span) ← deeper.block
    return .block span body
  | .semicolon =>
    let token ← advance
    return .empty token.span
  | _ => deeper.expressionStatement

/-- The parsers of one level, given those of the next. -/
def above : Deeper where
  statement := nested deeper.anyStatement
  expression := nested deeper.assignment
  operand := deepened deeper.unary

/-- The parsers that may go down this many levels. -/
def ofAllowance : Nat → Deeper
  | 0 => ⟨tooDeep, tooDeep, tooDeep⟩
  | allowance + 1 => (ofAllowance allowance).above

end Deeper

/-- The statements of a whole program. -/
def program : Parser (List Stmt) := do
  let deeper := Deeper.ofAllowance (← get).limit
  manyUntil (· = .endOfText) deeper.statement (← tokensLeft)

/-- The program that a token list holds, where so many statements and expressions may be within one
another. -/
def programWithin (limit : Nat) (tokens : List Token) : Except Diagnostic (List Stmt) :=
  match program ⟨tokens, limit, 0, 0⟩ with
  | .ok statements _ => .ok statements
  | .error d _ => .error d

/-- The program that a token list holds. -/
def programOfTokens (tokens : List Token) : Except Diagnostic (List Stmt) :=
  programWithin maxTreeDepth tokens

/-- The program that a source text holds; string literals are assembled in the buffer. -/
def programOfSource (source : String) (scratch : TextBuffer) :
    Except Diagnostic (List Stmt) × TextBuffer :=
  let (tokens, scratch) := tokenize source scratch
  (tokens >>= programOfTokens, scratch)

end ScriptHost
