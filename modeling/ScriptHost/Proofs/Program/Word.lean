import Mathlib.Data.List.Forall2
import ScriptHost.Proofs.Program.Grammar

/-!
What tokens say and what trees hold. Apart from its place and the way it is written a token says a
word; the listing of a tree holds its words in the order of the source text, without the marks that
only group and separate.
-/

namespace ScriptHost

/-- What a token says: a name, the name of a property after a point or in an object literal, a
constant that is written out, or just its kind. -/
inductive Word
  | sign (kind : TokenKind)
  | name (text : String)
  | property (text : String)
  | key (text : String)
  | string (text : String)
  | number (value : Float)

/-- The token says the word. -/
inductive Token.Says : Token → Word → Prop
  | sign {t : Token} : Says t (.sign t.kind)
  | name {t : Token} (hkind : t.kind = .identifier) : Says t (.name t.lexeme)
  | property {t : Token} (hkind : t.kind.isProperty = true) : Says t (.property t.lexeme)
  | key {t : Token} (hkind : t.kind.isKey = true) : Says t (.key t.lexeme)
  | string {t : Token} (hkind : t.kind = .string) : Says t (.string t.lexeme)
  | number {t : Token} {x : Float} (hkind : t.kind = .number)
      (hvalue : readFloat? t.lexeme.toList = some x) : Says t (.number x)

theorem Token.says_sign {t : Token} {kind : TokenKind} (h : t.kind = kind) : t.Says (.sign kind) :=
  h ▸ .sign

/-- All marks but those that group and separate, and the end. -/
def TokenKind.isListed : TokenKind → Bool
  | .leftParen | .rightParen | .leftBrace | .rightBrace | .comma | .dot | .colon | .semicolon
  | .endOfText => false
  | _ => true

/-- The token kind of an operator before its operand. -/
def UnaryOp.kind : UnaryOp → TokenKind
  | .negate => .minus
  | .not => .bang
  | .typeOf => .keyword .typeOf

theorem kind_of_unaryOp? {kind : TokenKind} {op : UnaryOp} (h : unaryOp? kind = some op) :
    kind = op.kind := by
  unfold unaryOp? at h
  split at h <;> cases h <;> rfl

theorem unaryOp?_of_kind {kind : TokenKind} {op : UnaryOp} (h : kind = op.kind) :
    unaryOp? kind = some op := by
  subst h
  cases op <;> rfl

/-- The word for a constant. -/
def Literal.word : Literal → Word
  | .number value => .number value
  | .string value => .string value
  | .bool true => .sign (.keyword .true)
  | .bool false => .sign (.keyword .false)
  | .null => .sign (.keyword .null)
  | .undefined => .sign (.keyword .undefined)

theorem word_of_literal? {word : Keyword} {value : Literal} (h : word.literal? = some value) :
    value.word = .sign (.keyword word) := by
  cases word <;> cases h <;> rfl

mutual

/-- The words of an expression in the order of the source text. -/
def Expr.listing : Expr → List Word
  | .literal _ value => [value.word]
  | .variable _ name => [.name name]
  | .this _ => [.sign (.keyword .this)]
  | .binary _ op left right => left.listing ++ .sign (Operator.binary op).kind :: right.listing
  | .logical _ op left right => left.listing ++ .sign (Operator.logical op).kind :: right.listing
  | .unary _ op operand => .sign op.kind :: operand.listing
  | .assign _ target value => target.listing ++ .sign .assign :: value.listing
  | .call _ callee arguments => callee.listing ++ Expr.listingAll arguments
  | .member _ owner property => owner.listing ++ [.property property]
  | .object _ entries => Entry.listingAll entries
  | .function _ code => code.listing

def Expr.listingAll : List Expr → List Word
  | [] => []
  | e :: rest => e.listing ++ Expr.listingAll rest

def Entry.listing : Entry → List Word
  | ⟨key, value⟩ => .key key :: value.listing

def Entry.listingAll : List Entry → List Word
  | [] => []
  | entry :: rest => entry.listing ++ Entry.listingAll rest

/-- The words of a statement in the order of the source text. -/
def Stmt.listing : Stmt → List Word
  | .var _ name none => [.sign (.keyword .var), .name name]
  | .var _ name (some e) =>
    .sign (.keyword .var) :: .name name :: .sign .assign :: e.listing
  | .function _ code => code.listing
  | .expression _ value => value.listing
  | .block _ body => Stmt.listingAll body
  | .conditional _ condition thenBranch none =>
    .sign (.keyword .if) :: condition.listing ++ thenBranch.listing
  | .conditional _ condition thenBranch (some elseBranch) =>
    .sign (.keyword .if) :: condition.listing ++ thenBranch.listing ++
      .sign (.keyword .else) :: elseBranch.listing
  | .while _ condition body => .sign (.keyword .while) :: condition.listing ++ body.listing
  | .return _ none => [.sign (.keyword .return)]
  | .return _ (some e) => .sign (.keyword .return) :: e.listing
  | .empty _ => []

def Stmt.listingAll : List Stmt → List Word
  | [] => []
  | s :: rest => s.listing ++ Stmt.listingAll rest

/-- The words of a function from its keyword on. -/
def FunctionCode.listing : FunctionCode → List Word
  | ⟨name, parameters, body⟩ =>
    .sign (.keyword .function) :: name.toList.map .name ++ parameters.map .name ++
      Stmt.listingAll body

end

theorem Operator.listing_join (op : Operator) (left right : Expr) :
    (op.join left right).listing = left.listing ++ .sign op.kind :: right.listing := by
  cases op <;> simp [join, Expr.listing]

end ScriptHost
