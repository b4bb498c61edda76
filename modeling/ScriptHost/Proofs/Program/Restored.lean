import ScriptHost.Proofs.Program.Bare
import ScriptHost.Proofs.Program.Printed
import ScriptHost.Proofs.Program.Proper
import ScriptHost.Proofs.Program.Writes

/-!
Reading back what is written out in full. Tokens that say the words of a tree that was read are
written for the same tree, apart from its spans: by one lemma for each form, and by recursion over
the tree for all of them.
-/

namespace ScriptHost

/-! ### Words and the tokens that say them -/

theorem exists_of_says_append {used : List Token} {words more : List Word}
    (h : List.Forall₂ Token.Says used (words ++ more)) :
    ∃ first second, used = first ++ second ∧ List.Forall₂ Token.Says first words ∧
      List.Forall₂ Token.Says second more :=
  ⟨used.take words.length, used.drop words.length, (List.take_append_drop ..).symm,
    List.forall₂_take_append used words more h, List.forall₂_drop_append used words more h⟩

theorem exists_of_says_cons {used : List Token} {word : Word} {words : List Word}
    (h : List.Forall₂ Token.Says used (word :: words)) :
    ∃ t rest, used = t :: rest ∧ t.Says word ∧ List.Forall₂ Token.Says rest words := by
  cases h with
  | cons ht hrest => exact ⟨_, _, rfl, ht, hrest⟩

theorem Token.Says.kind_eq {t : Token} {kind : TokenKind} (h : t.Says (.sign kind)) :
    t.kind = kind := by
  cases h
  rfl

theorem exists_of_says_sign {used : List Token} {kind : TokenKind} {words : List Word}
    (h : List.Forall₂ Token.Says used (.sign kind :: words)) :
    ∃ t rest, used = t :: rest ∧ t.kind = kind ∧ List.Forall₂ Token.Says rest words := by
  obtain ⟨t, rest, rfl, ht, hrest⟩ := exists_of_says_cons h
  exact ⟨t, rest, rfl, ht.kind_eq, hrest⟩

theorem exists_of_says_name {used : List Token} {name : String} {words : List Word}
    (h : List.Forall₂ Token.Says used (.name name :: words)) :
    ∃ t rest, used = t :: rest ∧ t.kind = .identifier ∧ t.lexeme = name ∧
      List.Forall₂ Token.Says rest words := by
  obtain ⟨t, rest, rfl, ht, hrest⟩ := exists_of_says_cons h
  cases ht with
  | name hkind => exact ⟨t, rest, rfl, hkind, rfl, hrest⟩

theorem eq_nil_of_says_nil {used : List Token} (h : List.Forall₂ Token.Says used []) :
    used = [] := by
  cases h
  rfl

/-- Words between two signs are said by tokens between two tokens of these kinds. -/
theorem exists_of_says_between {used : List Token} {first last : TokenKind} {words : List Word}
    (h : List.Forall₂ Token.Says used (.sign first :: words ++ [.sign last])) :
    ∃ opening inner closing, used = opening :: inner ++ [closing] ∧ opening.kind = first ∧
      closing.kind = last ∧ List.Forall₂ Token.Says inner words := by
  obtain ⟨opening, rest, rfl, hopening, hrest⟩ := exists_of_says_sign h
  obtain ⟨inner, others, rfl, hinner, hothers⟩ := exists_of_says_append hrest
  obtain ⟨closing, none, rfl, hclosing, hnone⟩ := exists_of_says_sign hothers
  obtain rfl := eq_nil_of_says_nil hnone
  exact ⟨opening, inner, closing, rfl, hopening, hclosing, hinner⟩

theorem names_of_printedNames : ∀ {names : List String} {used : List Token},
    List.Forall₂ Token.Says used (printedNames names) → Parameters used names
  | [], used, h => by
      obtain rfl := eq_nil_of_says_nil h
      exact .none
  | [name], used, h => by
      obtain ⟨t, rest, rfl, hkind, rfl, hrest⟩ := exists_of_says_name h
      obtain rfl := eq_nil_of_says_nil hrest
      exact .some (.one hkind)
  | name :: next :: rest, used, h => by
      obtain ⟨t, others, rfl, hkind, rfl, hothers⟩ := exists_of_says_name h
      obtain ⟨comma, more, rfl, hcomma, hmore⟩ := exists_of_says_sign hothers
      cases names_of_printedNames hmore with
      | some hnames => exact .some (.more hkind hcomma hnames)

/-! ### Expressions -/

/-- Before a closing parenthesis, tokens that say the words are written for the expression, apart
from its spans. -/
def Expr.Restored (e : Expr) (words : List Word) : Prop :=
  ∀ (inside : Bool) (used : List Token), List.Forall₂ Token.Says used words →
    ∃ e' : Expr, e'.bare = e.bare ∧ Writes inside .rightParen used (.expression e')

/-- Before anything, tokens that say the words are written for the expression, apart from its
spans. -/
def Expr.Wrapped (e : Expr) (words : List Word) : Prop :=
  ∀ (inside : Bool) (used : List Token), List.Forall₂ Token.Says used words →
    ∃ e' : Expr, e'.bare = e.bare ∧ ∀ next, Writes inside next used (.primary e')

namespace Expr

variable {e left right : Expr} {words leftWords rightWords : List Word} {span : Span}

theorem Restored.parens (h : e.Restored words) : e.Wrapped (parens words) := by
  intro inside used hused
  obtain ⟨opening, inner, closing, rfl, hopening, hclosing, hinner⟩ := exists_of_says_between hused
  obtain ⟨e', hbare, least, hwrites⟩ := h inside _ hinner
  exact ⟨e', hbare, fun next => ⟨least, fun room hroom =>
    .parentheses hopening (hwrites room hroom) hclosing⟩⟩

theorem Wrapped.restored (h : e.Wrapped words) : e.Restored words := by
  intro inside used hused
  obtain ⟨e', hbare, hwrites⟩ := h inside _ hused
  exact ⟨e', hbare, (hwrites _).expression_of_primary (by decide)⟩

/-- Two operands in parentheses with an operator between them. -/
theorem restored_join (op : Operator) (hleft : left.Wrapped leftWords)
    (hright : right.Wrapped rightWords) :
    (op.join left right).Restored (leftWords ++ .sign op.kind :: rightWords) := by
  intro inside used hused
  obtain ⟨first, others, rfl, hfirst, hothers⟩ := exists_of_says_append hused
  obtain ⟨sign, second, rfl, hsign, hsecond⟩ := exists_of_says_sign hothers
  obtain ⟨left', hleftBare, hleft⟩ := hleft inside _ hfirst
  obtain ⟨right', hrightBare, hright⟩ := hright inside _ hsecond
  obtain ⟨least, hleft⟩ := hleft op.kind
  obtain ⟨least', hright⟩ := hright .rightParen
  refine ⟨op.join left' right', ?_, .add 2 ⟨least + least', fun room hroom => ?_⟩⟩
  · rw [bare, bare, ← Operator.join_mapSpans (fun _ _ => rfl),
      ← Operator.join_mapSpans (fun _ _ => rfl)]
    exact congrArg₂ op.join hleftBare hrightBare
  · exact .join (hleft _ (by omega)) hsign (hright _ (by omega)) (by decide)

theorem restored_unary (op : UnaryOp) (h : e.Wrapped words) :
    (Expr.unary span op e).Restored (.sign op.kind :: words) := by
  intro inside used hused
  obtain ⟨sign, operand, rfl, hsign, hoperand⟩ := exists_of_says_sign hused
  obtain ⟨e', hbare, hwrites⟩ := h inside _ hoperand
  obtain ⟨least, hwrites⟩ := hwrites .rightParen
  refine ⟨.unary (sign.span.through e'.span) op e', ?_, .add 2 ⟨least, fun room hroom => ?_⟩⟩
  · exact congrArg (Expr.unary _ op) hbare
  · exact .expression_of_unary hsign (hwrites room hroom) (by decide)

theorem restored_assign (hassignable : left.isAssignable = true) (hleft : left.Wrapped leftWords)
    (hright : right.Wrapped rightWords) :
    (Expr.assign span left right).Restored (leftWords ++ .sign .assign :: rightWords) := by
  intro inside used hused
  obtain ⟨first, others, rfl, hfirst, hothers⟩ := exists_of_says_append hused
  obtain ⟨sign, second, rfl, hsign, hsecond⟩ := exists_of_says_sign hothers
  obtain ⟨left', hleftBare, hleft⟩ := hleft inside _ hfirst
  obtain ⟨right', hrightBare, hright⟩ := hright inside _ hsecond
  obtain ⟨least, hleft⟩ := hleft .assign
  obtain ⟨least', hright⟩ := hright .rightParen
  have hassignable' : left'.isAssignable = true := by
    simpa [hassignable] using congrArg isAssignable hleftBare
  refine ⟨.assign (left'.span.through right'.span) left' right', ?_,
    .add 2 ⟨least + least', fun room hroom => ?_⟩⟩
  · exact congrArg₂ (Expr.assign _) hleftBare hrightBare
  · exact .expression (.assignment_sign ((hleft _ (by omega)).level_of_primary (by decide)) hsign
      ((hright _ (by omega)).expression_of_primary (by decide)) hassignable')

theorem restored_member {property : String} (h : e.Wrapped words) :
    (Expr.member span e property).Restored (words ++ [.sign .dot, .property property]) := by
  intro inside used hused
  obtain ⟨first, others, rfl, hfirst, hothers⟩ := exists_of_says_append hused
  obtain ⟨sign, rest, rfl, hsign, hrest⟩ := exists_of_says_sign hothers
  obtain ⟨name, none, rfl, hname, hnone⟩ := exists_of_says_cons hrest
  obtain rfl := eq_nil_of_says_nil hnone
  obtain ⟨e', hbare, hwrites⟩ := h inside _ hfirst
  obtain ⟨least, hwrites⟩ := hwrites .dot
  cases hname with
  | property hkind =>
      refine ⟨.member (e'.span.through name.span) e' name.lexeme, ?_,
        .add 2 ⟨least, fun room hroom => ?_⟩⟩
      · exact congrArg (Expr.member _ · name.lexeme) hbare
      · have hprimary := hwrites (room + 1) (by omega)
        have hstart := hprimary.unaryOp?_leading
        rw [← hsign] at hprimary hstart
        refine .expression_of_suffixed (.suffixed hprimary
          (.suffixes_member hsign hkind (.suffixes_nil (by decide) (by decide)))) ?_ (by decide)
        rw [leading_append]
        exact hstart

/-- Between parentheses, tokens that say the words are written for the arguments, apart from their
spans. -/
def RestoredAll (es : List Expr) (words : List Word) : Prop :=
  ∀ (inside : Bool) (used : List Token), List.Forall₂ Token.Says used words →
    ∃ es' : List Expr, mapSpansAll Span.none es' = mapSpansAll Span.none es ∧
      Writes inside .rightParen used (.arguments es')

theorem restoredAll_nil : RestoredAll [] [] := by
  intro inside used hused
  obtain rfl := eq_nil_of_says_nil hused
  exact ⟨[], rfl, 0, fun _ _ => .arguments_nil⟩

theorem restoredAll_one (h : e.Wrapped words) : RestoredAll [e] words := by
  intro inside used hused
  obtain ⟨e', hbare, hwrites⟩ := h.restored inside _ hused
  refine ⟨[e'], congrArg (· :: []) hbare, hwrites.imp fun _ hleast room hroom => ?_⟩
  exact .arguments (.items_one (hleast room hroom) (by decide))

theorem restoredAll_cons {rest : List Expr} (hne : rest ≠ []) (h : e.Wrapped words)
    (hrest : RestoredAll rest rightWords) :
    RestoredAll (e :: rest) (words ++ .sign .comma :: rightWords) := by
  intro inside used hused
  obtain ⟨first, others, rfl, hfirst, hothers⟩ := exists_of_says_append hused
  obtain ⟨comma, second, rfl, hcomma, hsecond⟩ := exists_of_says_sign hothers
  obtain ⟨e', hbare, hwrites⟩ := h inside _ hfirst
  obtain ⟨least, he⟩ := (hwrites .comma).expression_of_primary (by decide)
  obtain ⟨es', hbares, least', hes⟩ := hrest inside _ hsecond
  refine ⟨e' :: es', congrArg₂ List.cons hbare hbares, least + least', fun room hroom => ?_⟩
  have harguments := hes room (by omega)
  generalize hes' : es' = others at harguments
  cases harguments with
  | arguments_nil =>
      subst hes'
      cases rest with
      | nil => exact absurd rfl hne
      | cons _ _ => cases hbares
  | arguments hitems =>
      subst hes'
      exact .arguments (.items_cons (he room (by omega)) hcomma hitems)

theorem restored_call {arguments : List Expr} (h : e.Wrapped words)
    (harguments : RestoredAll arguments rightWords) :
    (Expr.call span e arguments).Restored (words ++ ScriptHost.parens rightWords) := by
  intro inside used hused
  obtain ⟨first, others, rfl, hfirst, hothers⟩ := exists_of_says_append hused
  obtain ⟨opening, second, closing, rfl, hopening, hclosing, hsecond⟩ :=
    exists_of_says_between hothers
  obtain ⟨e', hbare, hwrites⟩ := h inside _ hfirst
  obtain ⟨least, hwrites⟩ := hwrites .leftParen
  obtain ⟨es', hbares, least', hes⟩ := harguments inside _ hsecond
  refine ⟨.call (e'.span.through closing.span) e' es', ?_,
    .add 2 ⟨least + least', fun room hroom => ?_⟩⟩
  · exact congrArg₂ (Expr.call _) hbare hbares
  · have hprimary := hwrites (room + 1) (by omega)
    have hstart := hprimary.unaryOp?_leading
    rw [← hopening] at hprimary hstart
    refine .expression_of_suffixed (.suffixed hprimary (.suffixes_call hopening
      (hes room (by omega)) hclosing (.suffixes_nil (by decide) (by decide)))) ?_ (by decide)
    rw [leading_append]
    exact hstart

/-- What is one primary expression whatever comes next. -/
theorem restored_primary
    (h : ∀ (inside : Bool) (used : List Token), List.Forall₂ Token.Says used words →
      ∃ e' : Expr, e'.bare = e.bare ∧ Writes inside .rightParen used (.primary e')) :
    e.Restored words := by
  intro inside used hused
  obtain ⟨e', hbare, hwrites⟩ := h inside _ hused
  exact ⟨e', hbare, hwrites.expression_of_primary (by decide)⟩

theorem restored_literal (value : Literal) : (Expr.literal span value).Restored [value.word] := by
  apply restored_primary
  intro inside used hused
  obtain ⟨t, rest, rfl, ht, hrest⟩ := exists_of_says_cons hused
  obtain rfl := eq_nil_of_says_nil hrest
  refine ⟨.literal t.span value, rfl, 0, fun room _ => ?_⟩
  cases value with
  | number x =>
      have hnumber : t.Says (.number x) := ht
      cases hnumber with
      | number hkind hvalue => exact .number hkind hvalue
  | string text =>
      have hstring : t.Says (.string text) := ht
      cases hstring with
      | string hkind => exact .string hkind
  | bool b => cases b <;> exact .constant ht.kind_eq rfl
  | null => exact .constant ht.kind_eq rfl
  | undefined => exact .constant ht.kind_eq rfl

theorem restored_variable (name : String) : (Expr.variable span name).Restored [.name name] := by
  apply restored_primary
  intro inside used hused
  obtain ⟨t, rest, rfl, hkind, rfl, hrest⟩ := exists_of_says_name hused
  obtain rfl := eq_nil_of_says_nil hrest
  exact ⟨.variable t.span t.lexeme, rfl, 0, fun room _ => .name hkind⟩

theorem Restored.of_bare {e' : Expr} (h : e.Restored words) (hbare : e.bare = e'.bare) :
    e'.Restored words := by
  intro inside used hused
  obtain ⟨e'', hbare', hwrites⟩ := h inside _ hused
  exact ⟨e'', hbare'.trans hbare, hwrites⟩

theorem restored_this : (Expr.this span).Restored [.sign (.keyword .this)] := by
  apply restored_primary
  intro inside used hused
  obtain ⟨t, rest, rfl, hkind, hrest⟩ := exists_of_says_sign hused
  obtain rfl := eq_nil_of_says_nil hrest
  exact ⟨.this t.span, rfl, 0, fun room _ => .this hkind⟩

end Expr

namespace Entry

variable {key : String} {e : Expr} {words more : List Word} {span : Span}

/-- Between braces, tokens that say the words are written for the properties, apart from their
spans. -/
def RestoredAll (es : List Entry) (words : List Word) : Prop :=
  ∀ (inside : Bool) (used : List Token), List.Forall₂ Token.Says used words →
    ∃ es' : List Entry, mapSpansAll Span.none es' = mapSpansAll Span.none es ∧
      Writes inside .rightBrace used (.entries es')

theorem restoredAll_nil : RestoredAll [] [] := by
  intro inside used hused
  obtain rfl := eq_nil_of_says_nil hused
  exact ⟨[], rfl, 0, fun _ _ => .entries_nil⟩

theorem exists_of_says_key {used : List Token}
    (h : List.Forall₂ Token.Says used (.string key :: .sign .colon :: words)) :
    ∃ t colon rest, used = t :: colon :: rest ∧ t.kind.isKey = true ∧ t.lexeme = key ∧
      colon.kind = .colon ∧ List.Forall₂ Token.Says rest words := by
  obtain ⟨t, others, rfl, ht, hothers⟩ := exists_of_says_cons h
  obtain ⟨colon, rest, rfl, hcolon, hrest⟩ := exists_of_says_sign hothers
  cases ht with
  | string hkind => exact ⟨t, colon, rest, rfl, by rw [hkind]; rfl, rfl, hcolon, hrest⟩

theorem restoredAll_one (h : e.Wrapped words) :
    RestoredAll [⟨key, e⟩] (.string key :: .sign .colon :: words) := by
  intro inside used hused
  obtain ⟨t, colon, rest, rfl, hkey, rfl, hcolon, hrest⟩ := exists_of_says_key hused
  obtain ⟨e', hbare, hwrites⟩ := h inside _ hrest
  obtain ⟨least, he⟩ := (hwrites .rightBrace).expression_of_primary (by decide)
  refine ⟨[⟨t.lexeme, e'⟩], ?_, least, fun room hroom => ?_⟩
  · exact congrArg (fun e => [Entry.mk t.lexeme e]) hbare
  · exact .entries_one hkey hcolon (he room hroom) (by decide)

theorem restoredAll_cons {rest : List Entry} (h : e.Wrapped words) (hrest : RestoredAll rest more) :
    RestoredAll (⟨key, e⟩ :: rest)
      (.string key :: .sign .colon :: words ++ .sign .comma :: more) := by
  intro inside used hused
  obtain ⟨t, colon, others, rfl, hkey, rfl, hcolon, hothers⟩ := exists_of_says_key hused
  obtain ⟨first, after, rfl, hfirst, hafter⟩ := exists_of_says_append hothers
  obtain ⟨comma, second, rfl, hcomma, hsecond⟩ := exists_of_says_sign hafter
  obtain ⟨e', hbare, hwrites⟩ := h inside _ hfirst
  obtain ⟨least, he⟩ := (hwrites .comma).expression_of_primary (by decide)
  obtain ⟨es', hbares, least', hes⟩ := hrest inside _ hsecond
  refine ⟨⟨t.lexeme, e'⟩ :: es', ?_, least + least', fun room hroom => ?_⟩
  · exact congrArg₂ (fun e es => Entry.mk t.lexeme e :: es) hbare hbares
  · exact .entries_cons hkey hcolon (he room (by omega)) hcomma (hes room (by omega))

theorem restored_object {es : List Entry} (h : RestoredAll es words) :
    (Expr.object span es).Restored (braces words) := by
  apply Expr.restored_primary
  intro inside used hused
  obtain ⟨opening, inner, closing, rfl, hopening, hclosing, hinner⟩ := exists_of_says_between hused
  obtain ⟨es', hbares, least, hes⟩ := h inside _ hinner
  refine ⟨.object (opening.span.through closing.span) es', ?_, least, fun room hroom => ?_⟩
  · exact congrArg (Expr.object _) hbares
  · exact .object hopening (hes room hroom) hclosing

end Entry

/-! ### Statements -/

/-- Tokens that say the words are written for the statement, apart from its spans, unless an
alternative follows that would belong to it. -/
def Stmt.Restored (inside : Bool) (s : Stmt) (words : List Word) : Prop :=
  ∀ used : List Token, List.Forall₂ Token.Says used words →
    ∃ s' : Stmt, s'.bare = s.bare ∧
      ∀ next, (s.isOpen = true → next ≠ .keyword .else) → Writes inside next used (.statement s')

/-- Tokens that say the words are written for the statements, apart from their spans. -/
def Stmt.RestoredAll (inside : Bool) (body : List Stmt) (words : List Word) : Prop :=
  ∀ used : List Token, List.Forall₂ Token.Says used words →
    ∃ body' : List Stmt, Stmt.mapSpansAll Span.none body' = Stmt.mapSpansAll Span.none body ∧
      ∀ next, next ≠ .keyword .else → Writes inside next used (.statements body')

/-- Tokens that say the words are written for the function, apart from its spans. -/
def FunctionCode.Restored (code : FunctionCode) (words : List Word) : Prop :=
  ∀ (inside : Bool) (used : List Token), List.Forall₂ Token.Says used words →
    ∃ (code' : FunctionCode) (span : Span), code'.bare = code.bare ∧
      ∀ next, Writes inside next used (.function code' span)

theorem FunctionCode.restored {name : Option String} {parameters : List String} {body : List Stmt}
    {words : List Word} (h : Stmt.RestoredAll true body words) :
    FunctionCode.Restored ⟨name, parameters, body⟩
      (.sign (.keyword .function) :: name.toList.map .name ++ parens (printedNames parameters) ++
        braces words) := by
  intro inside used hused
  obtain ⟨head, last, rfl, hhead, hlast⟩ := exists_of_says_append hused
  obtain ⟨front, middle, rfl, hfront, hmiddle⟩ := exists_of_says_append hhead
  obtain ⟨first, names, rfl, hfirst, hnames⟩ := exists_of_says_sign hfront
  obtain ⟨opening, inner, closing, rfl, hopening, hclosing, hinner⟩ :=
    exists_of_says_between hmiddle
  obtain ⟨left, block, right, rfl, hleft, hright, hblock⟩ := exists_of_says_between hlast
  obtain ⟨body', hbare, hwrites⟩ := h _ hblock
  obtain ⟨least, hbody⟩ := hwrites .rightBrace (by simp)
  have hname : ∃ t : Option Token, names = t.toList ∧ t.map Token.lexeme = name ∧
      ∀ u ∈ t, u.kind = .identifier := by
    cases name with
    | none => exact ⟨none, eq_nil_of_says_nil hnames, rfl, by simp⟩
    | some name =>
        obtain ⟨t, rest, rfl, hkind, rfl, hrest⟩ := exists_of_says_name hnames
        obtain rfl := eq_nil_of_says_nil hrest
        exact ⟨some t, rfl, rfl, by simpa using hkind⟩
  obtain ⟨t, rfl, rfl, hkind⟩ := hname
  refine ⟨⟨t.map Token.lexeme, parameters, body'⟩,
    first.span.through (left.span.through right.span), ?_,
    fun next => ⟨least, fun room hroom => ?_⟩⟩
  · exact congrArg (FunctionCode.mk _ _) hbare
  · have hblock : Derives room true next (left :: block ++ [right])
        (.block body' (left.span.through right.span)) := .block hleft (hbody room hroom) hright
    have hcode : Derives room inside next _ _ :=
      .function hfirst hkind hopening (names_of_printedNames hinner) hclosing hblock
    simpa using hcode

theorem Expr.restored_function {code : FunctionCode} {span : Span} {words : List Word}
    (h : code.Restored words) : (Expr.function span code).Restored words := by
  apply restored_primary
  intro inside used hused
  obtain ⟨code', span', hbare, hwrites⟩ := h inside _ hused
  refine ⟨.function span' code', congrArg (Expr.function _) hbare, ?_⟩
  exact (hwrites _).imp fun _ hleast room hroom => .functionExpression (hleast room hroom)

namespace Stmt

variable {inside : Bool} {span : Span} {e : Expr} {s t : Stmt} {words more other : List Word}
  {name : String}

/-- What is one form of statement whatever comes next, an alternative apart. -/
theorem restored_form
    (h : ∀ used : List Token, List.Forall₂ Token.Says used words →
      ∃ s' : Stmt, s'.bare = s.bare ∧
        ∀ next, (s.isOpen = true → next ≠ .keyword .else) → Writes inside next used (.form s')) :
    s.Restored inside words := by
  intro used hused
  obtain ⟨s', hbare, hwrites⟩ := h _ hused
  exact ⟨s', hbare, fun next hnext => .add 1 ((hwrites next hnext).imp
    fun _ hleast room hroom => .statement (hleast room hroom))⟩

theorem restored_var :
    (Stmt.var span name none).Restored inside
      [.sign (.keyword .var), .name name, .sign .semicolon] := by
  apply restored_form
  intro used hused
  obtain ⟨first, rest, rfl, hfirst, hrest⟩ := exists_of_says_sign hused
  obtain ⟨t, others, rfl, hname, rfl, hothers⟩ := exists_of_says_name hrest
  obtain ⟨mark, more, rfl, hmark, hmore⟩ := exists_of_says_sign hothers
  obtain rfl := eq_nil_of_says_nil hmore
  refine ⟨.var (first.span.through t.span) t.lexeme none, rfl, fun next _ => ⟨0, fun room _ => ?_⟩⟩
  exact .var hfirst hname (.marked hmark) (by rw [leading_cons, hmark]; simp)

/-- An expression in parentheses and a semicolon. -/
theorem exists_of_says_ended (inside : Bool) {used : List Token} (h : e.Wrapped words)
    (hused : List.Forall₂ Token.Says used (words ++ [.sign .semicolon])) :
    ∃ (value : List Token) (mark : Token) (e' : Expr), used = value ++ [mark] ∧
      mark.kind = .semicolon ∧ e'.bare = e.bare ∧
      ∀ next, Writes inside (leading [mark] next) value (.expression e') := by
  obtain ⟨value, rest, rfl, hvalue, hrest⟩ := exists_of_says_append hused
  obtain ⟨mark, none, rfl, hmark, hnone⟩ := exists_of_says_sign hrest
  obtain rfl := eq_nil_of_says_nil hnone
  obtain ⟨e', hbare, hwrites⟩ := h inside _ hvalue
  refine ⟨value, mark, e', rfl, hmark, hbare, fun next => ?_⟩
  rw [leading_cons, hmark]
  exact (hwrites .semicolon).expression_of_primary (by decide)

theorem restored_var_initial (h : e.Wrapped words) :
    (Stmt.var span name (some e)).Restored inside
      (.sign (.keyword .var) :: .name name :: .sign .assign :: words ++ [.sign .semicolon]) := by
  apply restored_form
  intro used hused
  obtain ⟨first, rest, rfl, hfirst, hrest⟩ := exists_of_says_sign hused
  obtain ⟨t, others, rfl, hname, rfl, hothers⟩ := exists_of_says_name hrest
  obtain ⟨sign, after, rfl, hsign, hafter⟩ := exists_of_says_sign hothers
  obtain ⟨value, mark, e', rfl, hmark, hbare, hwrites⟩ :=
    exists_of_says_ended inside h hafter
  refine ⟨.var (first.span.through e'.span) t.lexeme (some e'), ?_, fun next _ => ?_⟩
  · exact congrArg (fun e => Stmt.var _ t.lexeme (some e)) hbare
  · obtain ⟨least, he⟩ := hwrites next
    exact ⟨least, fun room hroom =>
      .var_initial hfirst hname hsign (he room hroom) (.marked hmark)⟩

theorem restored_function {code : FunctionCode} (hname : code.name.isSome = true)
    (h : code.Restored words) : (Stmt.function span code).Restored inside words := by
  apply restored_form
  intro used hused
  obtain ⟨code', span', hbare, hwrites⟩ := h inside _ hused
  refine ⟨.function span' code', ?_, fun next _ => ?_⟩
  · exact congrArg (Stmt.function _) hbare
  · obtain ⟨least, hcode⟩ := hwrites next
    have hsome : code'.name.isSome = true := by
      have hbares : code'.bare.name.isSome = code.bare.name.isSome := by rw [hbare]
      obtain ⟨name, parameters, body⟩ := code
      obtain ⟨name', parameters', body'⟩ := code'
      exact hbares.trans hname
    obtain ⟨text, htext⟩ := Option.isSome_iff_exists.mp hsome
    exact ⟨least, fun room hroom => .functionForm (hcode room hroom) htext⟩

theorem restored_expression (h : e.Restored words) :
    (Stmt.expression span e).Restored inside (parens words ++ [.sign .semicolon]) := by
  apply restored_form
  intro used hused
  have hopening : leading used .endOfText = .leftParen := by
    obtain ⟨opening, rest, rfl, hopening, -⟩ := exists_of_says_sign hused
    exact hopening
  obtain ⟨value, mark, e', rfl, hmark, hbare, hwrites⟩ :=
    exists_of_says_ended inside h.parens hused
  refine ⟨.expression e'.span e', ?_, fun next _ => ?_⟩
  · exact congrArg (Stmt.expression _) hbare
  · obtain ⟨least, he⟩ := hwrites next
    refine ⟨least, fun room hroom => .expressionForm (he room hroom) (.marked hmark) ?_⟩
    obtain ⟨t, rest, rfl, -⟩ := (he room hroom).begins
    rw [List.cons_append, leading_cons, show t.kind = .leftParen from hopening]
    rfl

theorem restored_block {body : List Stmt} (h : RestoredAll inside body words) :
    (Stmt.block span body).Restored inside (braces words) := by
  apply restored_form
  intro used hused
  obtain ⟨opening, inner, closing, rfl, hopening, hclosing, hinner⟩ := exists_of_says_between hused
  obtain ⟨body', hbare, hwrites⟩ := h _ hinner
  obtain ⟨least, hbody⟩ := hwrites .rightBrace (by simp)
  refine ⟨.block (opening.span.through closing.span) body', ?_,
    fun next _ => ⟨least, fun room hroom => ?_⟩⟩
  · exact congrArg (Stmt.block _) hbare
  · exact .blockForm (.block hopening (hbody room hroom) hclosing)

/-- A keyword, a condition in parentheses and what follows. -/
theorem exists_of_says_condition (inside : Bool) {used : List Token} {kind : TokenKind}
    (h : e.Wrapped words)
    (hused : List.Forall₂ Token.Says used (.sign kind :: parens words ++ more)) :
    ∃ (first opening : Token) (condition : List Token) (closing : Token) (rest : List Token)
      (e' : Expr), used = first :: opening :: condition ++ closing :: rest ∧ first.kind = kind ∧
      opening.kind = .leftParen ∧ closing.kind = .rightParen ∧ e'.bare = e.bare ∧
      Writes inside .rightParen condition (.expression e') ∧ List.Forall₂ Token.Says rest more := by
  obtain ⟨head, rest, rfl, hhead, hrest⟩ := exists_of_says_append hused
  obtain ⟨first, others, rfl, hfirst, hothers⟩ := exists_of_says_sign hhead
  obtain ⟨opening, inner, closing, rfl, hopening, hclosing, hinner⟩ :=
    exists_of_says_between hothers
  obtain ⟨e', hbare, hwrites⟩ := h.restored inside _ hinner
  exact ⟨first, opening, inner, closing, rest, e', by simp, hfirst, hopening, hclosing, hbare,
    hwrites, hrest⟩

theorem restored_conditional (h : e.Wrapped words) (hbranch : s.Restored inside more) :
    (Stmt.conditional span e s none).Restored inside
      (.sign (.keyword .if) :: parens words ++ more) := by
  apply restored_form
  intro used hused
  obtain ⟨first, opening, condition, closing, rest, e', rfl, hfirst, hopening, hclosing, hbare,
    hcondition, hrest⟩ := exists_of_says_condition inside h hused
  obtain ⟨least, he⟩ := hcondition
  obtain ⟨s', hsbare, hwrites⟩ := hbranch _ hrest
  refine ⟨.conditional (first.span.through s'.span) e' s' none, ?_, fun next hnext => ?_⟩
  · exact congrArg₂ (fun e s => Stmt.conditional _ e s none) hbare hsbare
  · obtain ⟨least', hs⟩ := hwrites next fun _ => hnext rfl
    exact ⟨least + least', fun room hroom => .conditional hfirst hopening (he room (by omega))
      hclosing (hs room (by omega)) (hnext rfl)⟩

theorem restored_conditional_else (h : e.Wrapped words) (hbranch : s.Restored inside more)
    (hclosed : s.isOpen = false) (hother : t.Restored inside other) :
    (Stmt.conditional span e s (some t)).Restored inside
      (.sign (.keyword .if) :: parens words ++ more ++ .sign (.keyword .else) :: other) := by
  apply restored_form
  intro used hused
  rw [List.append_assoc] at hused
  obtain ⟨first, opening, condition, closing, rest, e', rfl, hfirst, hopening, hclosing, hbare,
    hcondition, hrest⟩ := exists_of_says_condition inside h hused
  obtain ⟨least, he⟩ := hcondition
  obtain ⟨branch, others, rfl, hmore, hothers⟩ := exists_of_says_append hrest
  obtain ⟨sign, last, rfl, hsign, hlast⟩ := exists_of_says_sign hothers
  obtain ⟨s', hsbare, hs⟩ := hbranch _ hmore
  obtain ⟨least', hs⟩ := hs (.keyword .else) (by simp [hclosed])
  obtain ⟨t', htbare, hwrites⟩ := hother _ hlast
  refine ⟨.conditional (first.span.through t'.span) e' s' (some t'), ?_, fun next hnext => ?_⟩
  · change Stmt.conditional _ e'.bare s'.bare (some t'.bare) = _
    rw [hbare, hsbare, htbare]
    rfl
  · obtain ⟨least'', ht⟩ := hwrites next hnext
    refine ⟨least + least' + least'', fun room hroom => ?_⟩
    have hform := Derives.conditional_else hfirst hopening (he room (by omega)) hclosing
      (hs room (by omega)) hsign (ht room (by omega))
    simpa using hform

theorem restored_while (h : e.Wrapped words) (hbody : s.Restored inside more) :
    (Stmt.while span e s).Restored inside (.sign (.keyword .while) :: parens words ++ more) := by
  apply restored_form
  intro used hused
  obtain ⟨first, opening, condition, closing, rest, e', rfl, hfirst, hopening, hclosing, hbare,
    hcondition, hrest⟩ := exists_of_says_condition inside h hused
  obtain ⟨least, he⟩ := hcondition
  obtain ⟨s', hsbare, hwrites⟩ := hbody _ hrest
  refine ⟨.while (first.span.through s'.span) e' s', ?_, fun next hnext => ?_⟩
  · exact congrArg₂ (Stmt.while _) hbare hsbare
  · obtain ⟨least', hs⟩ := hwrites next hnext
    exact ⟨least + least', fun room hroom => .whileLoop hfirst hopening (he room (by omega))
      hclosing (hs room (by omega))⟩

theorem restored_return :
    (Stmt.return span none).Restored true [.sign (.keyword .return), .sign .semicolon] := by
  apply restored_form
  intro used hused
  obtain ⟨first, rest, rfl, hfirst, hrest⟩ := exists_of_says_sign hused
  obtain ⟨mark, more, rfl, hmark, hmore⟩ := exists_of_says_sign hrest
  obtain rfl := eq_nil_of_says_nil hmore
  refine ⟨.return (first.span.through first.span) none, rfl, fun next _ => ⟨0, fun room _ => ?_⟩⟩
  exact .returnForm hfirst (.marked hmark) (by rw [leading_cons, hmark]; rfl)

theorem restored_return_value (h : e.Wrapped words) :
    (Stmt.return span (some e)).Restored true
      (.sign (.keyword .return) :: words ++ [.sign .semicolon]) := by
  apply restored_form
  intro used hused
  obtain ⟨first, rest, rfl, hfirst, hrest⟩ := exists_of_says_sign hused
  obtain ⟨value, mark, e', rfl, hmark, hbare, hwrites⟩ := exists_of_says_ended true h hrest
  refine ⟨.return (first.span.through e'.span) (some e'), ?_, fun next _ => ?_⟩
  · exact congrArg (fun e => Stmt.return _ (some e)) hbare
  · obtain ⟨least, he⟩ := hwrites next
    exact ⟨least, fun room hroom => .returnForm_value hfirst (he room hroom) (.marked hmark)⟩

theorem restored_empty : (Stmt.empty span).Restored inside [.sign .semicolon] := by
  apply restored_form
  intro used hused
  obtain ⟨mark, more, rfl, hmark, hmore⟩ := exists_of_says_sign hused
  obtain rfl := eq_nil_of_says_nil hmore
  exact ⟨.empty mark.span, rfl, fun next _ => ⟨0, fun room _ => .empty hmark⟩⟩

theorem restoredAll_nil : RestoredAll inside [] [] := by
  intro used hused
  obtain rfl := eq_nil_of_says_nil hused
  exact ⟨[], rfl, fun next _ => ⟨0, fun _ _ => .statements_nil⟩⟩

theorem restoredAll_cons {rest : List Stmt} (h : s.Restored inside words)
    (hrest : RestoredAll inside rest more) : RestoredAll inside (s :: rest) (words ++ more) := by
  intro used hused
  obtain ⟨first, second, rfl, hfirst, hsecond⟩ := exists_of_says_append hused
  obtain ⟨s', hbare, hs⟩ := h _ hfirst
  obtain ⟨body', hbares, hwrites⟩ := hrest _ hsecond
  refine ⟨s' :: body', congrArg₂ List.cons hbare hbares, fun next hnext => ?_⟩
  obtain ⟨least, hbody⟩ := hwrites next hnext
  have hleading := (hbody least (Nat.le_refl _)).leading_ne_else hnext
  obtain ⟨least', hs⟩ := hs (leading second next) fun _ => hleading
  exact ⟨least + least', fun room hroom =>
    .statements_cons (hs room (by omega)) (hbody room (by omega))⟩

end Stmt

/-! ### All trees -/

mutual

theorem Expr.restored_printed : ∀ {e : Expr}, e.Proper → e.Restored e.printed
  | .literal _ value, _ => Expr.restored_literal value
  | .variable _ name, _ => Expr.restored_variable name
  | .this _, _ => Expr.restored_this
  | .binary _ op _ _, h =>
    (Expr.restored_join (.binary op) (Expr.restored_printed h.1).parens
      (Expr.restored_printed h.2).parens).of_bare rfl
  | .logical _ op _ _, h =>
    (Expr.restored_join (.logical op) (Expr.restored_printed h.1).parens
      (Expr.restored_printed h.2).parens).of_bare rfl
  | .unary _ op operand, h =>
    Expr.restored_unary op (Expr.restored_printed (e := operand) h).parens
  | .assign _ _ _, h =>
    Expr.restored_assign h.1 (Expr.restored_printed h.2.1).parens
      (Expr.restored_printed h.2.2).parens
  | .call _ _ _, h =>
    Expr.restored_call (Expr.restored_printed h.1).parens (Expr.restored_printedAll h.2)
  | .member _ owner _, h => Expr.restored_member (Expr.restored_printed (e := owner) h).parens
  | .object _ entries, h => Entry.restored_object (@Entry.restored_printedAll entries h)
  | .function _ code, h => Expr.restored_function (@FunctionCode.restored_printed code h)

theorem Expr.restored_printedAll : ∀ {es : List Expr}, Expr.ProperAll es →
    Expr.RestoredAll es (Expr.printedAll es)
  | [], _ => Expr.restoredAll_nil
  | [_], h => Expr.restoredAll_one (Expr.restored_printed h.1).parens
  | _ :: _ :: _, h =>
    Expr.restoredAll_cons (List.cons_ne_nil _ _) (Expr.restored_printed h.1).parens
      (Expr.restored_printedAll h.2)

theorem Entry.restored_printedAll : ∀ {es : List Entry}, Entry.ProperAll es →
    Entry.RestoredAll es (Entry.printedAll es)
  | [], _ => Entry.restoredAll_nil
  | [⟨_, value⟩], h => Entry.restoredAll_one (Expr.restored_printed (e := value) h.1).parens
  | ⟨_, value⟩ :: _ :: _, h =>
    Entry.restoredAll_cons (Expr.restored_printed (e := value) h.1).parens
      (Entry.restored_printedAll h.2)

theorem Stmt.restored_printed {inside : Bool} : ∀ {s : Stmt}, s.Proper inside →
    s.Restored inside s.printed
  | .var _ _ none, _ => Stmt.restored_var
  | .var _ _ (some e), h => Stmt.restored_var_initial (Expr.restored_printed (e := e) h).parens
  | .function _ _, h => Stmt.restored_function h.1 (FunctionCode.restored_printed h.2)
  | .expression _ value, h => Stmt.restored_expression (Expr.restored_printed (e := value) h)
  | .block _ body, h => Stmt.restored_block (@Stmt.restored_printedAll inside body h)
  | .conditional _ _ _ none, h =>
    Stmt.restored_conditional (Expr.restored_printed h.1).parens (Stmt.restored_printed h.2)
  | .conditional _ _ _ (some _), h =>
    Stmt.restored_conditional_else (Expr.restored_printed h.1).parens
      (Stmt.restored_printed h.2.1) h.2.2.1 (Stmt.restored_printed h.2.2.2)
  | .while _ _ _, h =>
    Stmt.restored_while (Expr.restored_printed h.1).parens (Stmt.restored_printed h.2)
  | .return _ none, h => by
    obtain rfl : inside = true := h
    exact Stmt.restored_return
  | .return _ (some _), h => by
    obtain ⟨rfl, he⟩ := h
    exact Stmt.restored_return_value (Expr.restored_printed he).parens
  | .empty _, _ => Stmt.restored_empty

theorem Stmt.restored_printedAll {inside : Bool} : ∀ {body : List Stmt},
    Stmt.ProperAll inside body → Stmt.RestoredAll inside body (Stmt.printedAll body)
  | [], _ => Stmt.restoredAll_nil
  | _ :: _, h => Stmt.restoredAll_cons (Stmt.restored_printed h.1) (Stmt.restored_printedAll h.2)

theorem FunctionCode.restored_printed : ∀ {code : FunctionCode}, code.Proper →
    code.Restored code.printed
  | ⟨_, _, _⟩, h => FunctionCode.restored (Stmt.restored_printedAll h)

end

end ScriptHost
