import ScriptHost.Proofs.Program.Word

/-!
Trees written out in full. Every expression within another construct stands in parentheses and every
simple statement ends in a semicolon; blocks and function bodies stand in braces, while branches and
loop bodies are written as the statements they are.
-/

namespace ScriptHost

/-- The words in parentheses. -/
def parens (words : List Word) : List Word := .sign .leftParen :: words ++ [.sign .rightParen]

/-- The words in braces. -/
def braces (words : List Word) : List Word := .sign .leftBrace :: words ++ [.sign .rightBrace]

/-- Names with commas between them. -/
def printedNames : List String → List Word
  | [] => []
  | [name] => [.name name]
  | name :: rest => .name name :: .sign .comma :: printedNames rest

mutual

/-- The words of an expression that stands in parentheses of its own. -/
def Expr.printed : Expr → List Word
  | .literal _ value => [value.word]
  | .variable _ name => [.name name]
  | .this _ => [.sign (.keyword .this)]
  | .binary _ op left right =>
    parens left.printed ++ .sign (Operator.binary op).kind :: parens right.printed
  | .logical _ op left right =>
    parens left.printed ++ .sign (Operator.logical op).kind :: parens right.printed
  | .unary _ op operand => .sign op.kind :: parens operand.printed
  | .assign _ target value => parens target.printed ++ .sign .assign :: parens value.printed
  | .call _ callee arguments => parens callee.printed ++ parens (Expr.printedAll arguments)
  | .member _ owner property => parens owner.printed ++ [.sign .dot, .property property]
  | .object _ entries => braces (Entry.printedAll entries)
  | .function _ code => code.printed

/-- Arguments with commas between them. -/
def Expr.printedAll : List Expr → List Word
  | [] => []
  | [e] => parens e.printed
  | e :: next :: rest => parens e.printed ++ .sign .comma :: Expr.printedAll (next :: rest)

/-- The name of a property is written as a string literal. -/
def Entry.printed : Entry → List Word
  | ⟨key, value⟩ => .string key :: .sign .colon :: parens value.printed

/-- Properties with commas between them. -/
def Entry.printedAll : List Entry → List Word
  | [] => []
  | [entry] => entry.printed
  | entry :: next :: rest => entry.printed ++ .sign .comma :: Entry.printedAll (next :: rest)

/-- The words of a statement. -/
def Stmt.printed : Stmt → List Word
  | .var _ name none => [.sign (.keyword .var), .name name, .sign .semicolon]
  | .var _ name (some e) =>
    .sign (.keyword .var) :: .name name :: .sign .assign :: parens e.printed ++ [.sign .semicolon]
  | .function _ code => code.printed
  | .expression _ value => parens value.printed ++ [.sign .semicolon]
  | .block _ body => braces (Stmt.printedAll body)
  | .conditional _ condition thenBranch none =>
    .sign (.keyword .if) :: parens (parens condition.printed) ++ thenBranch.printed
  | .conditional _ condition thenBranch (some elseBranch) =>
    .sign (.keyword .if) :: parens (parens condition.printed) ++ thenBranch.printed ++
      .sign (.keyword .else) :: elseBranch.printed
  | .while _ condition body =>
    .sign (.keyword .while) :: parens (parens condition.printed) ++ body.printed
  | .return _ none => [.sign (.keyword .return), .sign .semicolon]
  | .return _ (some e) => .sign (.keyword .return) :: parens e.printed ++ [.sign .semicolon]
  | .empty _ => [.sign .semicolon]

/-- Statements one after the other. -/
def Stmt.printedAll : List Stmt → List Word
  | [] => []
  | s :: rest => s.printed ++ Stmt.printedAll rest

/-- A function from its keyword on. -/
def FunctionCode.printed : FunctionCode → List Word
  | ⟨name, parameters, body⟩ =>
    .sign (.keyword .function) :: name.toList.map .name ++ parens (printedNames parameters) ++
      braces (Stmt.printedAll body)

end

/-- The kinds that have a spelling of their own. -/
def TokenKind.isMark : TokenKind → Bool
  | .identifier | .number | .string | .endOfText => false
  | _ => true

/-- The words that can be written out whatever the source text was. -/
def Word.isFixed : Word → Bool
  | .sign kind => kind.isMark
  | .string _ => true
  | _ => false

/-- The words that are written as they were in the source text. -/
def Word.isFree : Word → Bool
  | .name _ | .property _ | .number _ => true
  | _ => false

/-- All words but those that can be written out anyway are in the listing. -/
def Written (words listing : List Word) : Prop :=
  ∀ w ∈ words, w.isFixed = true ∨ w.isFree = true ∧ w ∈ listing

namespace Written

variable {words more listing others : List Word} {w : Word}

theorem nil : Written [] listing := List.forall_mem_nil _

theorem append (h : Written words listing) (hmore : Written more others) :
    Written (words ++ more) (listing ++ others) := by
  intro w hw
  rcases List.mem_append.mp hw with hw | hw
  · exact (h w hw).imp id fun hfree => ⟨hfree.1, List.mem_append_left _ hfree.2⟩
  · exact (hmore w hw).imp id fun hfree => ⟨hfree.1, List.mem_append_right _ hfree.2⟩

theorem fixed (hw : w.isFixed = true) (h : Written words listing) : Written (w :: words) listing :=
  List.forall_mem_cons.mpr ⟨.inl hw, h⟩

/-- One more word in the listing. -/
theorem listed (h : Written words listing) (w : Word) : Written words (w :: listing) :=
  fun v hv => (h v hv).imp id fun hfree => ⟨hfree.1, List.mem_cons_of_mem _ hfree.2⟩

theorem free (hw : w.isFree = true) (h : Written words listing) :
    Written (w :: words) (w :: listing) :=
  List.forall_mem_cons.mpr ⟨.inr ⟨hw, List.mem_cons_self⟩, h.listed w⟩

/-- A sign that is listed as well. -/
theorem sign (hw : w.isFixed = true) (h : Written words listing) :
    Written (w :: words) (w :: listing) :=
  (h.listed w).fixed hw

theorem ended (hw : w.isFixed = true) (h : Written words listing) :
    Written (words ++ [w]) listing := by
  have hlast : Written [w] [] := nil.fixed hw
  have hwhole := h.append hlast
  rwa [List.append_nil] at hwhole

theorem parens (h : Written words listing) : Written (ScriptHost.parens words) listing :=
  (h.ended rfl).fixed rfl

theorem braces (h : Written words listing) : Written (ScriptHost.braces words) listing :=
  (h.ended rfl).fixed rfl

end Written

theorem written_printedNames : ∀ names : List String,
    Written (printedNames names) (names.map .name)
  | [] => .nil
  | [_] => .free rfl .nil
  | _ :: next :: rest => .free rfl ((written_printedNames (next :: rest)).fixed rfl)

theorem isFixed_operator (op : Operator) : (Word.sign op.kind).isFixed = true := by
  cases op with
  | binary op => cases op <;> rfl
  | logical op => cases op <;> rfl

theorem isFixed_unaryOp (op : UnaryOp) : (Word.sign op.kind).isFixed = true := by
  cases op <;> rfl

theorem written_literal (value : Literal) : Written [value.word] [value.word] := by
  cases value with
  | number x => exact .free rfl .nil
  | string text => exact .sign rfl .nil
  | bool b => cases b <;> exact .sign rfl .nil
  | null => exact .sign rfl .nil
  | undefined => exact .sign rfl .nil

mutual

theorem Expr.written : ∀ e : Expr, Written e.printed e.listing
  | .literal _ value => written_literal value
  | .variable _ _ => .free rfl .nil
  | .this _ => .sign rfl .nil
  | .binary _ op left right =>
    left.written.parens.append (right.written.parens.sign (isFixed_operator (.binary op)))
  | .logical _ op left right =>
    left.written.parens.append (right.written.parens.sign (isFixed_operator (.logical op)))
  | .unary _ op operand => operand.written.parens.sign (isFixed_unaryOp op)
  | .assign _ target value => target.written.parens.append (value.written.parens.sign rfl)
  | .call _ callee arguments => callee.written.parens.append (Expr.writtenAll arguments).parens
  | .member _ owner _ => owner.written.parens.append (.fixed rfl (.free rfl .nil))
  | .object _ entries => (Entry.writtenAll entries).braces
  | .function _ code => code.written

theorem Expr.writtenAll : ∀ es : List Expr, Written (Expr.printedAll es) (Expr.listingAll es)
  | [] => .nil
  | [e] => by
    have hnil : Written [] (Expr.listingAll []) := .nil
    have h := e.written.parens.append hnil
    rwa [List.append_nil] at h
  | e :: next :: rest =>
    e.written.parens.append ((Expr.writtenAll (next :: rest)).fixed rfl)

theorem Entry.written : ∀ entry : Entry, Written entry.printed entry.listing
  | ⟨key, value⟩ => ((value.written.parens.fixed rfl).listed (.key key)).fixed rfl

theorem Entry.writtenAll : ∀ es : List Entry, Written (Entry.printedAll es) (Entry.listingAll es)
  | [] => .nil
  | [entry] => by
    have hnil : Written [] (Entry.listingAll []) := .nil
    have h := entry.written.append hnil
    rwa [List.append_nil] at h
  | entry :: next :: rest => entry.written.append ((Entry.writtenAll (next :: rest)).fixed rfl)

theorem Stmt.written : ∀ s : Stmt, Written s.printed s.listing
  | .var _ _ none => .sign rfl (.free rfl (.fixed rfl .nil))
  | .var _ _ (some e) => .sign rfl (.free rfl (.sign rfl (e.written.parens.ended rfl)))
  | .function _ code => code.written
  | .expression _ value => value.written.parens.ended rfl
  | .block _ body => (Stmt.writtenAll body).braces
  | .conditional _ condition thenBranch none =>
    (condition.written.parens.parens.append thenBranch.written).sign rfl
  | .conditional _ condition thenBranch (some elseBranch) =>
    ((condition.written.parens.parens.append thenBranch.written).append
      (elseBranch.written.sign rfl)).sign rfl
  | .while _ condition body => (condition.written.parens.parens.append body.written).sign rfl
  | .return _ none => .sign rfl (.fixed rfl .nil)
  | .return _ (some e) => .sign rfl (e.written.parens.ended rfl)
  | .empty _ => .fixed rfl .nil

/-- The names and numbers in what is written out in full are those of the listing. -/
theorem Stmt.writtenAll : ∀ body : List Stmt, Written (Stmt.printedAll body) (Stmt.listingAll body)
  | [] => .nil
  | s :: rest => s.written.append (Stmt.writtenAll rest)

theorem FunctionCode.written : ∀ code : FunctionCode, Written code.printed code.listing
  | ⟨none, parameters, body⟩ =>
    ((written_printedNames parameters).parens.append (Stmt.writtenAll body).braces).sign rfl
  | ⟨some _, parameters, body⟩ =>
    (((written_printedNames parameters).parens.free rfl).append
      (Stmt.writtenAll body).braces).sign rfl

end

end ScriptHost
