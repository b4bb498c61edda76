import ScriptHost.Text.Diagnostic
import ScriptHost.Token.Basic

/-!
Reading a token list. A parser is a state-passing function over a cursor, and a refusal keeps the
cursor where it was found. The cursor counts how deeply the construct being read is nested, up to
its limit, and how many function bodies enclose it.
-/

namespace ScriptHost

/-- Greatest number of statements and expressions within one another. -/
def maxTreeDepth : Nat := 96

/-- The tokens still to be read, and the two counters of the constructs being read with the limit of
the first. -/
structure Cursor where
  remaining : List Token
  limit : Nat
  depth : Nat
  functionDepth : Nat

/-- Reads from a cursor or refuses. -/
abbrev Parser := EStateM Diagnostic Cursor

namespace Parser

variable {α : Type}

/-- Stands for the end of the text where a token list lacks its last token. -/
def endOfText : Token := ⟨.endOfText, "", ⟨0, 0⟩⟩

/-- The token to be read next. -/
def peek : Parser Token := do
  return (← get).remaining.headD endOfText

/-- The kind of the token to be read next. -/
def peekKind : Parser TokenKind := do
  return (← peek).kind

/-- The kind of the token after the next. -/
def peekSecondKind : Parser TokenKind := do
  return ((← get).remaining.tail.headD endOfText).kind

/-- Takes the next token. The last one would stay where it is, but no parser of the language comes
to take it. -/
def advance : Parser Token := do
  let token ← peek
  if token.kind ≠ .endOfText then
    modify fun c => { c with remaining := c.remaining.tail }
  return token

/-- Refuses the text at a span. -/
def refuse (message : String) (span : Span) : Parser α :=
  throw ((Diagnostic.ofMessage .parser message).locate span)

/-- Refuses the text at the next token, which the message names. -/
def refuseNext (message : String) : Parser α := do
  let token ← peek
  if token.kind = .endOfText then refuse (message ++ ", found end of input") token.span
  else refuse (message ++ ", found `" ++ token.lexeme ++ "`") token.span

/-- Takes the next token if it is of this kind. -/
def accept? (kind : TokenKind) : Parser (Option Token) := do
  if (← peekKind) = kind then return some (← advance) else return none

/-- Takes the next token, which must be of this kind. -/
def expect (kind : TokenKind) (message : String) : Parser Token := do
  if (← peekKind) = kind then advance else refuseNext message

/-- Takes a name; reserved words are names of properties too. -/
def expectProperty (message : String) : Parser Token := do
  match ← peekKind with
  | .identifier | .keyword _ => advance
  | _ => refuseNext message

/-- Refuses whatever comes next for being nested too deeply. -/
def tooDeep : Parser α := do
  refuse "expression nested too deeply" (← peek).span

/-- Enters one more level of nesting. -/
def descend : Parser Unit := do
  let c ← get
  if c.depth < c.limit then modify fun c => { c with depth := c.depth + 1 } else tooDeep

/-- Runs a parser one level deeper, and leaves that level also when it refuses. -/
def nested (p : Parser α) : Parser α := do
  descend
  fun c =>
    match p c with
    | .ok a c => .ok a { c with depth := c.depth - 1 }
    | .error d c => .error d { c with depth := c.depth - 1 }

/-- Runs a parser one level deeper, and leaves that level only when it succeeds. -/
def deepened (p : Parser α) : Parser α := do
  descend
  let a ← p
  modify fun c => { c with depth := c.depth - 1 }
  return a

/-- Runs a parser and returns to the present level once it succeeds. -/
def restoringDepth (p : Parser α) : Parser α := do
  let depth := (← get).depth
  let a ← p
  modify fun c => { c with depth := depth }
  return a

/-- Runs a parser inside one more function body, also when it refuses. -/
def inFunction (p : Parser α) : Parser α := fun c =>
  match p { c with functionDepth := c.functionDepth + 1 } with
  | .ok a c => .ok a { c with functionDepth := c.functionDepth - 1 }
  | .error d c => .error d { c with functionDepth := c.functionDepth - 1 }

/-- The tokens still to be read. Every repetition is bounded by as many rounds. -/
def tokensLeft : Parser (List Token) := do
  return (← get).remaining

/-- Reads items up to a token of a closing kind, at most one for each token of the bound. -/
def manyUntil (closes : TokenKind → Bool) (item : Parser α) : List Token → Parser (List α)
  | [] => return []
  | _ :: bound => do
    if closes (← peekKind) then return []
    let first ← item
    return first :: (← manyUntil closes item bound)

/-- Reads items with commas between them, at most one for each token of the bound. -/
def separated (item : Parser α) : List Token → Parser (List α)
  | [] => return []
  | _ :: bound => do
    let first ← item
    match ← accept? .comma with
    | some _ => return first :: (← separated item bound)
    | none => return [first]

/-- Reads items with commas between them up to a token of a closing kind, which may come at once. -/
def separatedUntil (closing : TokenKind) (item : Parser α) : Parser (List α) := do
  if (← peekKind) = closing then return []
  separated item (← tokensLeft)

/-- Reads what follows a sign, where there is the sign. -/
def following? (sign : TokenKind) (item : Parser α) : Parser (Option α) := do
  match ← accept? sign with
  | some _ => return some (← item)
  | none => return none

end Parser

end ScriptHost
