import ScriptHost.Program.Parser

/-!
The grammar of the script language, apart from the parsers that read it. A derivation says which
tokens are written for which tree, spans included, how much room for nesting they take, whether
they stand in a function body and which kind of token comes next; the last matters where the reader
takes as much as it can.
-/

namespace ScriptHost

/-- What tokens are written for. A form is a statement before its level is counted, and the part of
an expression from the sign after its left operand on stands with that operand. -/
inductive Construct
  | statements (body : List Stmt)
  | statement (s : Stmt)
  | form (s : Stmt)
  | block (body : List Stmt) (span : Span)
  | function (code : FunctionCode) (span : Span)
  | expression (e : Expr)
  | assignment (e : Expr)
  | level (groups : List (List (TokenKind × Operator))) (e : Expr)
  | operations (operators : List (TokenKind × Operator))
      (tighter : List (List (TokenKind × Operator))) (left e : Expr)
  | operand (e : Expr)
  | unary (e : Expr)
  | suffixed (e : Expr)
  | suffixes (left e : Expr)
  | primary (e : Expr)
  | arguments (es : List Expr)
  | items (es : List Expr)
  | entries (entries : List Entry)

/-- The kind that comes first, where the kind after the tokens is given. -/
def leading : List Token → TokenKind → TokenKind
  | [], next => next
  | t :: _, _ => t.kind

@[simp] theorem leading_nil (next : TokenKind) : leading [] next = next := rfl

@[simp] theorem leading_cons (t : Token) (rest : List Token) (next : TokenKind) :
    leading (t :: rest) next = t.kind := rfl

theorem leading_append (first second : List Token) (next : TokenKind) :
    leading (first ++ second) next = leading first (leading second next) := by
  cases first <;> rfl

/-- The kinds that name a property after a point. -/
def TokenKind.isProperty : TokenKind → Bool
  | .identifier | .keyword _ => true
  | _ => false

/-- The kinds that name a property in an object literal. -/
def TokenKind.isKey : TokenKind → Bool
  | .string | .number => true
  | kind => kind.isProperty

/-- The kinds at which a return has no value. -/
def TokenKind.endsReturn : TokenKind → Bool
  | .semicolon | .rightBrace | .endOfText => true
  | _ => false

/-- The two kinds begin a statement that is not an expression. -/
def startsForm (first second : TokenKind) : Bool :=
  match first with
  | .keyword .var | .keyword .if | .keyword .while | .keyword .return | .leftBrace | .semicolon =>
    true
  | .keyword .function => second == .identifier
  | _ => false

/-- The token kind of an operator. -/
def Operator.kind : Operator → TokenKind
  | .logical .or => .doublePipe
  | .logical .and => .doubleAmpersand
  | .binary .equal => .equalEqual
  | .binary .notEqual => .bangEqual
  | .binary .strictEqual => .equalEqualEqual
  | .binary .strictNotEqual => .bangEqualEqual
  | .binary .less => .less
  | .binary .lessEqual => .lessEqual
  | .binary .greater => .greater
  | .binary .greaterEqual => .greaterEqual
  | .binary .add => .plus
  | .binary .sub => .minus
  | .binary .mul => .star
  | .binary .div => .slash
  | .binary .mod => .percent

theorem kind_of_lookup {operators : List (TokenKind × Operator)} {kind : TokenKind} {op : Operator}
    (hmem : operators ∈ operatorLevels) (h : operators.lookup kind = some op) : op.kind = kind := by
  have hall : ∀ operators ∈ operatorLevels, ∀ p ∈ operators, p.2.kind = p.1 := by decide
  obtain ⟨front, back, rfl, -⟩ := List.lookup_eq_some_iff.mp h
  exact hall _ hmem (kind, op) (by simp)

theorem ne_endOfText_of_lookup {operators : List (TokenKind × Operator)} {kind : TokenKind}
    {op : Operator} (hmem : operators ∈ operatorLevels) (h : operators.lookup kind = some op) :
    kind ≠ .endOfText := by
  rw [← kind_of_lookup hmem h]
  cases op with
  | binary op => cases op <;> simp [Operator.kind]
  | logical op => cases op <;> simp [Operator.kind]

/-- Names with commas between them, at least one. -/
inductive Names : List Token → List String → Prop
  | one {name : Token} (hname : name.kind = .identifier) : Names [name] [name.lexeme]
  | more {name comma : Token} {used : List Token} {names : List String}
      (hname : name.kind = .identifier) (hcomma : comma.kind = .comma) (hrest : Names used names) :
      Names (name :: comma :: used) (name.lexeme :: names)

/-- Parameters, which there may be none of. -/
inductive Parameters : List Token → List String → Prop
  | none : Parameters [] []
  | some {used : List Token} {names : List String} (h : Names used names) : Parameters used names

/-- The end of a statement: a semicolon, or nothing before something else. -/
inductive Ended : TokenKind → List Token → Prop
  | bare {next : TokenKind} (h : next ≠ .semicolon) : Ended next []
  | marked {next : TokenKind} {mark : Token} (h : mark.kind = .semicolon) : Ended next [mark]

/-- With this room for nesting, inside a function body or not, and before a token of this kind, the
tokens are written for the construct. -/
inductive Derives : Nat → Bool → TokenKind → List Token → Construct → Prop
  | statements_nil {room inside next} : Derives room inside next [] (.statements [])
  | statements_cons {room inside next used rest s body}
      (hfirst : Derives room inside (leading rest next) used (.statement s))
      (hrest : Derives room inside next rest (.statements body)) :
      Derives room inside next (used ++ rest) (.statements (s :: body))
  | statement {room inside next used s} (h : Derives room inside next used (.form s)) :
      Derives (room + 1) inside next used (.statement s)
  | var {room inside next first name ending} (hfirst : first.kind = .keyword .var)
      (hname : name.kind = .identifier) (hend : Ended next ending)
      (hbare : leading ending next ≠ .assign) :
      Derives room inside next (first :: name :: ending)
        (.form (.var (first.span.through name.span) name.lexeme none))
  | var_initial {room inside next first name sign value ending e}
      (hfirst : first.kind = .keyword .var) (hname : name.kind = .identifier)
      (hsign : sign.kind = .assign)
      (hvalue : Derives room inside (leading ending next) value (.expression e))
      (hend : Ended next ending) :
      Derives room inside next (first :: name :: sign :: value ++ ending)
        (.form (.var (first.span.through e.span) name.lexeme (some e)))
  | functionForm {room inside next used name code span}
      (h : Derives room inside next used (.function code span)) (hname : code.name = some name) :
      Derives room inside next used (.form (.function span code))
  | expressionForm {room inside next value ending e}
      (hvalue : Derives room inside (leading ending next) value (.expression e))
      (hend : Ended next ending)
      (hstart : startsForm (leading (value ++ ending) next) (leading (value ++ ending).tail next) =
        false) :
      Derives room inside next (value ++ ending) (.form (.expression e.span e))
  | blockForm {room inside next used body span}
      (h : Derives room inside next used (.block body span)) :
      Derives room inside next used (.form (.block span body))
  | conditional {room inside next first opening condition closing branch e s}
      (hfirst : first.kind = .keyword .if) (hopening : opening.kind = .leftParen)
      (hcondition : Derives room inside .rightParen condition (.expression e))
      (hclosing : closing.kind = .rightParen)
      (hbranch : Derives room inside next branch (.statement s)) (hnext : next ≠ .keyword .else) :
      Derives room inside next (first :: opening :: condition ++ closing :: branch)
        (.form (.conditional (first.span.through s.span) e s none))
  | conditional_else {room inside next first opening condition closing branch sign other e s t}
      (hfirst : first.kind = .keyword .if) (hopening : opening.kind = .leftParen)
      (hcondition : Derives room inside .rightParen condition (.expression e))
      (hclosing : closing.kind = .rightParen)
      (hbranch : Derives room inside (.keyword .else) branch (.statement s))
      (hsign : sign.kind = .keyword .else)
      (hother : Derives room inside next other (.statement t)) :
      Derives room inside next (first :: opening :: condition ++ closing :: branch ++ sign :: other)
        (.form (.conditional (first.span.through t.span) e s (some t)))
  | whileLoop {room inside next first opening condition closing body e s}
      (hfirst : first.kind = .keyword .while) (hopening : opening.kind = .leftParen)
      (hcondition : Derives room inside .rightParen condition (.expression e))
      (hclosing : closing.kind = .rightParen)
      (hbody : Derives room inside next body (.statement s)) :
      Derives room inside next (first :: opening :: condition ++ closing :: body)
        (.form (.while (first.span.through s.span) e s))
  | returnForm {room next first ending} (hfirst : first.kind = .keyword .return)
      (hend : Ended next ending) (hbare : (leading ending next).endsReturn = true) :
      Derives room true next (first :: ending)
        (.form (.return (first.span.through first.span) none))
  | returnForm_value {room next first value ending e} (hfirst : first.kind = .keyword .return)
      (hvalue : Derives room true (leading ending next) value (.expression e))
      (hend : Ended next ending) :
      Derives room true next (first :: value ++ ending)
        (.form (.return (first.span.through e.span) (some e)))
  | empty {room inside next mark} (hmark : mark.kind = .semicolon) :
      Derives room inside next [mark] (.form (.empty mark.span))
  | block {room inside next opening used closing body} (hopening : opening.kind = .leftBrace)
      (hbody : Derives room inside .rightBrace used (.statements body))
      (hclosing : closing.kind = .rightBrace) :
      Derives room inside next (opening :: used ++ [closing])
        (.block body (opening.span.through closing.span))
  | function {room inside next first opening parameters closing used names body span}
      {name : Option Token} (hfirst : first.kind = .keyword .function)
      (hname : ∀ t ∈ name, t.kind = .identifier) (hopening : opening.kind = .leftParen)
      (hparameters : Parameters parameters names) (hclosing : closing.kind = .rightParen)
      (hbody : Derives room true next used (.block body span)) :
      Derives room inside next
        (first :: name.toList ++ opening :: parameters ++ closing :: used)
        (.function ⟨name.map Token.lexeme, names, body⟩ (first.span.through span))
  | expression {room inside next used e} (h : Derives room inside next used (.assignment e)) :
      Derives (room + 1) inside next used (.expression e)
  | assignment {room inside next used e}
      (h : Derives room inside next used (.level operatorLevels e)) (hnext : next ≠ .assign) :
      Derives room inside next used (.assignment e)
  | assignment_sign {room inside next used sign value target e}
      (htarget : Derives room inside .assign used (.level operatorLevels target))
      (hsign : sign.kind = .assign) (hvalue : Derives room inside next value (.expression e))
      (hassignable : target.isAssignable = true) :
      Derives room inside next (used ++ sign :: value)
        (.assignment (.assign (target.span.through e.span) target e))
  | level_nil {room inside next used e} (h : Derives room inside next used (.unary e)) :
      Derives room inside next used (.level [] e)
  | level_cons {room inside next operators tighter used chain left e}
      (hleft : Derives room inside (leading chain next) used (.level tighter left))
      (hchain : Derives room inside next chain (.operations operators tighter left e)) :
      Derives room inside next (used ++ chain) (.level (operators :: tighter) e)
  | operations_nil {room inside next operators tighter left}
      (hnext : operators.lookup next = none) :
      Derives room inside next [] (.operations operators tighter left left)
  | operations_cons {room inside next operators tighter sign op used chain left right e}
      (hmem : operators ∈ operatorLevels) (hsign : operators.lookup sign.kind = some op)
      (hright : Derives room inside (leading chain next) used (.level tighter right))
      (hchain : Derives room inside next chain
        (.operations operators tighter (op.join left right) e)) :
      Derives (room + 1) inside next (sign :: used ++ chain) (.operations operators tighter left e)
  | operand {room inside next used e} (h : Derives room inside next used (.unary e)) :
      Derives (room + 1) inside next used (.operand e)
  | unary {room inside next sign op used e} (hsign : unaryOp? sign.kind = some op)
      (h : Derives room inside next used (.operand e)) :
      Derives room inside next (sign :: used)
        (.unary (.unary (sign.span.through e.span) op e))
  | unary_none {room inside next used e} (h : Derives room inside next used (.suffixed e))
      (hstart : unaryOp? (leading used next) = none) :
      Derives room inside next used (.unary e)
  | suffixed {room inside next used chain left e}
      (hprimary : Derives room inside (leading chain next) used (.primary left))
      (hchain : Derives room inside next chain (.suffixes left e)) :
      Derives room inside next (used ++ chain) (.suffixed e)
  | suffixes_nil {room inside next e} (hparen : next ≠ .leftParen) (hdot : next ≠ .dot) :
      Derives room inside next [] (.suffixes e e)
  | suffixes_call {room inside next opening used closing chain es left e}
      (hopening : opening.kind = .leftParen)
      (harguments : Derives room inside .rightParen used (.arguments es))
      (hclosing : closing.kind = .rightParen)
      (hchain : Derives room inside next chain
        (.suffixes (.call (left.span.through closing.span) left es) e)) :
      Derives (room + 1) inside next (opening :: used ++ closing :: chain) (.suffixes left e)
  | suffixes_member {room inside next sign name chain left e} (hsign : sign.kind = .dot)
      (hname : name.kind.isProperty = true)
      (hchain : Derives room inside next chain
        (.suffixes (.member (left.span.through name.span) left name.lexeme) e)) :
      Derives (room + 1) inside next (sign :: name :: chain) (.suffixes left e)
  | number {room inside next t x} (ht : t.kind = .number)
      (hvalue : readFloat? t.lexeme.toList = some x) :
      Derives room inside next [t] (.primary (.literal t.span (.number x)))
  | string {room inside next t} (ht : t.kind = .string) :
      Derives room inside next [t] (.primary (.literal t.span (.string t.lexeme)))
  | name {room inside next t} (ht : t.kind = .identifier) :
      Derives room inside next [t] (.primary (.variable t.span t.lexeme))
  | this {room inside next t} (ht : t.kind = .keyword .this) :
      Derives room inside next [t] (.primary (.this t.span))
  | constant {room inside next t word value} (ht : t.kind = .keyword word)
      (hvalue : word.literal? = some value) :
      Derives room inside next [t] (.primary (.literal t.span value))
  | functionExpression {room inside next used code span}
      (h : Derives room inside next used (.function code span)) :
      Derives room inside next used (.primary (.function span code))
  | parentheses {room inside next opening used closing e} (hopening : opening.kind = .leftParen)
      (h : Derives room inside .rightParen used (.expression e))
      (hclosing : closing.kind = .rightParen) :
      Derives room inside next (opening :: used ++ [closing]) (.primary e)
  | object {room inside next opening used closing es} (hopening : opening.kind = .leftBrace)
      (h : Derives room inside .rightBrace used (.entries es))
      (hclosing : closing.kind = .rightBrace) :
      Derives room inside next (opening :: used ++ [closing])
        (.primary (.object (opening.span.through closing.span) es))
  | arguments_nil {room inside next} : Derives room inside next [] (.arguments [])
  | arguments {room inside next used es} (h : Derives room inside next used (.items es)) :
      Derives room inside next used (.arguments es)
  | items_one {room inside next used e} (h : Derives room inside next used (.expression e))
      (hnext : next ≠ .comma) : Derives room inside next used (.items [e])
  | items_cons {room inside next used comma rest e es}
      (h : Derives room inside .comma used (.expression e)) (hcomma : comma.kind = .comma)
      (hrest : Derives room inside next rest (.items es)) :
      Derives room inside next (used ++ comma :: rest) (.items (e :: es))
  | entries_nil {room inside next} : Derives room inside next [] (.entries [])
  | entries_one {room inside next key colon used e} (hkey : key.kind.isKey = true)
      (hcolon : colon.kind = .colon) (h : Derives room inside next used (.expression e))
      (hnext : next ≠ .comma) :
      Derives room inside next (key :: colon :: used) (.entries [⟨key.lexeme, e⟩])
  | entries_cons {room inside next key colon used comma rest e es} (hkey : key.kind.isKey = true)
      (hcolon : colon.kind = .colon) (h : Derives room inside .comma used (.expression e))
      (hcomma : comma.kind = .comma) (hrest : Derives room inside next rest (.entries es)) :
      Derives room inside next (key :: colon :: used ++ comma :: rest)
        (.entries (⟨key.lexeme, e⟩ :: es))

/-- A function before whose parameters a name stands has it. -/
theorem Derives.exists_name {room : Nat} {inside : Bool} {next : TokenKind} {used : List Token}
    {code : FunctionCode} {span : Span} (h : Derives room inside next used (.function code span))
    (hsecond : leading used.tail next = .identifier) : ∃ name, code.name = some name := by
  cases h with
  | @function _ _ _ _ _ _ _ _ _ _ _ name _ _ hopening =>
      cases name with
      | none =>
          have hkind : TokenKind.identifier = .leftParen := hsecond.symm.trans hopening
          cases hkind
      | some t => exact ⟨t.lexeme, rfl⟩

/-- The name of a function stands after its keyword. -/
theorem Derives.exists_second {room : Nat} {inside : Bool} {next : TokenKind} {used : List Token}
    {code : FunctionCode} {span : Span} {text : String}
    (h : Derives room inside next used (.function code span)) (hname : code.name = some text) :
    ∃ t u others, used = t :: u :: others ∧ t.kind = .keyword .function ∧ u.kind = .identifier := by
  cases h with
  | @function _ _ _ _ _ _ _ _ _ _ _ name hfirst hkind =>
      cases name with
      | none => cases hname
      | some u => exact ⟨_, u, _, rfl, hfirst, hkind u rfl⟩

/-- The kinds that an expression begins with. -/
def startsExpression (kind : TokenKind) : Bool :=
  (unaryOp? kind).isSome ||
    match kind with
    | .number | .string | .identifier | .leftParen | .leftBrace => true
    | .keyword .this | .keyword .function => true
    | .keyword word => word.literal?.isSome
    | _ => false

/-- The kinds that a statement begins with. -/
def startsStatement (kind : TokenKind) : Bool :=
  startsExpression kind ||
    match kind with
    | .keyword .var | .keyword .if | .keyword .while | .keyword .return | .semicolon => true
    | _ => false

/-- There are tokens, and the first of them is of such a kind. -/
def Opens (starts : TokenKind → Bool) (used : List Token) : Prop :=
  ∃ (t : Token) (rest : List Token), used = t :: rest ∧ starts t.kind = true

theorem Opens.append {starts : TokenKind → Bool} {used : List Token} (h : Opens starts used)
    (rest : List Token) : Opens starts (used ++ rest) := by
  obtain ⟨t, others, rfl, ht⟩ := h
  exact ⟨t, others ++ rest, rfl, ht⟩

theorem Opens.statement {used : List Token} (h : Opens startsExpression used) :
    Opens startsStatement used := by
  obtain ⟨t, rest, rfl, ht⟩ := h
  exact ⟨t, rest, rfl, by simp [startsStatement, ht]⟩

theorem Opens.leading {starts : TokenKind → Bool} {used : List Token} (h : Opens starts used)
    (next : TokenKind) : starts (leading used next) = true := by
  obtain ⟨t, rest, rfl, ht⟩ := h
  exact ht

/-- What the tokens of a construct that is never empty begin with. -/
def Construct.Begins : Construct → List Token → Prop
  | .statements _, _ | .operations .., _ | .suffixes .., _ | .arguments _, _ | .entries _, _ => True
  | .statement _, used | .form _, used => Opens startsStatement used
  | .block .., used => Opens (· = .leftBrace) used
  | .function .., used => Opens (· = .keyword .function) used
  | .expression _, used | .assignment _, used | .level .., used | .operand _, used
  | .unary _, used | .suffixed _, used | .primary _, used | .items _, used =>
    Opens startsExpression used

theorem Derives.begins {room : Nat} {inside : Bool} {next : TokenKind} {used : List Token}
    {construct : Construct} (h : Derives room inside next used construct) :
    construct.Begins used := by
  induction h with
  | statements_nil | statements_cons | operations_nil | operations_cons | suffixes_nil
  | suffixes_call | suffixes_member | arguments_nil | arguments | entries_nil | entries_one
  | entries_cons => trivial
  | statement _ ih | expression _ ih | assignment _ _ ih | level_nil _ ih | operand _ ih
  | unary_none _ _ ih | items_one _ _ ih => exact ih
  | expressionForm _ _ _ ih => exact (ih.append _).statement
  | assignment_sign _ _ _ _ ih | level_cons _ _ ih | suffixed _ _ ih | items_cons _ _ _ ih =>
      exact ih.append _
  | functionForm _ _ ih | functionExpression _ ih | blockForm _ ih =>
      obtain ⟨t, rest, rfl, ht⟩ := ih
      exact ⟨t, rest, rfl, by rw [of_decide_eq_true ht]; rfl⟩
  | var hfirst | var_initial hfirst | conditional hfirst | conditional_else hfirst
  | whileLoop hfirst | returnForm hfirst | returnForm_value hfirst | empty hfirst =>
      exact ⟨_, _, rfl, by rw [hfirst]; rfl⟩
  | block hfirst | function hfirst => exact ⟨_, _, rfl, decide_eq_true hfirst⟩
  | unary hsign => exact ⟨_, _, rfl, by simp [startsExpression, hsign]⟩
  | number ht | string ht | name ht | this ht | parentheses ht | object ht =>
      exact ⟨_, _, rfl, by rw [ht]; rfl⟩
  | constant ht hvalue =>
      refine ⟨_, _, rfl, ?_⟩
      rw [ht]
      cases ‹Keyword› <;> first | rfl | cases hvalue

/-- No alternative comes first of statements. -/
theorem Derives.leading_ne_else {room : Nat} {inside : Bool} {next : TokenKind} {used : List Token}
    {body : List Stmt} (h : Derives room inside next used (.statements body))
    (hnext : next ≠ .keyword .else) : leading used next ≠ .keyword .else := by
  cases h with
  | statements_nil => exact hnext
  | statements_cons hfirst hrest =>
      obtain ⟨t, others, rfl, ht⟩ := hfirst.begins
      intro heq
      rw [show t.kind = .keyword .else from heq] at ht
      cases ht

end ScriptHost
