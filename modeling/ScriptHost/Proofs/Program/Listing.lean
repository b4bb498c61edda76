import ScriptHost.Proofs.Program.Derived
import ScriptHost.Proofs.Program.Word
import ScriptHost.Proofs.Token.Extent

/-!
Every token has its place in the tree. Without the marks that group and separate, the tokens of an
accepted text say the listing of its program, word for word and in order: reading drops, repeats and
reorders nothing.
-/

namespace ScriptHost

/-- Without the marks that group and separate the tokens say just these words. -/
def Lists (used : List Token) (words : List Word) : Prop :=
  List.Forall₂ Token.Says (used.filter (·.kind.isListed)) words

namespace Lists

variable {used more : List Token} {words others : List Word} {t : Token} {w : Word}
  {kind : TokenKind}

theorem nil : Lists [] [] := List.Forall₂.nil

theorem append (h : Lists used words) (hmore : Lists more others) :
    Lists (used ++ more) (words ++ others) := by
  unfold Lists at *
  rw [List.filter_append]
  exact List.rel_append h hmore

/-- A token that is listed, in front. -/
theorem cons (h : Lists used words) (ht : t.Says w) (hlisted : t.kind.isListed = true) :
    Lists (t :: used) (w :: words) := by
  unfold Lists at *
  rw [List.filter_cons_of_pos (by exact hlisted)]
  exact .cons ht h

theorem sign (h : Lists used words) (hkind : t.kind = kind) (hlisted : kind.isListed = true) :
    Lists (t :: used) (.sign kind :: words) :=
  h.cons (Token.says_sign hkind) (hkind ▸ hlisted)

theorem name (h : Lists used words) (hkind : t.kind = .identifier) :
    Lists (t :: used) (.name t.lexeme :: words) :=
  h.cons (.name hkind) (hkind ▸ rfl)

theorem property (h : Lists used words) (hkind : t.kind.isProperty = true) :
    Lists (t :: used) (.property t.lexeme :: words) := by
  refine h.cons (.property hkind) ?_
  generalize t.kind = kind at hkind
  cases kind <;> first | rfl | cases hkind

theorem key (h : Lists used words) (hkind : t.kind.isKey = true) :
    Lists (t :: used) (.key t.lexeme :: words) := by
  refine h.cons (.key hkind) ?_
  generalize t.kind = kind at hkind
  cases kind <;> first | rfl | cases hkind

/-- A mark that only groups or separates, in front. -/
theorem skip (h : Lists used words) (hkind : t.kind = kind) (hmark : kind.isListed = false) :
    Lists (t :: used) words := by
  unfold Lists at *
  rw [List.filter_cons_of_neg (by simp [hkind, hmark])]
  exact h

/-- A mark that only groups or separates, at the end. -/
theorem skip_last (h : Lists used words) (hkind : t.kind = kind) (hmark : kind.isListed = false) :
    Lists (used ++ [t]) words := by
  rw [← List.append_nil words]
  exact h.append (nil.skip hkind hmark)

theorem ended {next : TokenKind} (h : Ended next used) : Lists used [] := by
  cases h with
  | bare _ => exact nil
  | marked hmark => exact nil.skip hmark rfl

end Lists

theorem Names.lists {used : List Token} {names : List String} (h : Names used names) :
    Lists used (names.map .name) := by
  induction h with
  | one hname => exact Lists.nil.name hname
  | more hname hcomma _ ih => exact (ih.skip hcomma rfl).name hname

theorem Parameters.lists {used : List Token} {names : List String} (h : Parameters used names) :
    Lists used (names.map .name) := by
  cases h with
  | none => exact Lists.nil
  | some h => exact h.lists

/-- The tokens list the words of what they are written for; those of a part that goes on from a left
operand list the words that come after it. -/
def Construct.Listed : Construct → List Token → Prop
  | .statements body, used | .block body _, used => Lists used (Stmt.listingAll body)
  | .statement s, used | .form s, used => Lists used s.listing
  | .function code _, used => Lists used code.listing
  | .operations _ _ left e, used | .suffixes left e, used =>
    ∃ words, e.listing = left.listing ++ words ∧ Lists used words
  | .arguments es, used | .items es, used => Lists used (Expr.listingAll es)
  | .entries es, used => Lists used (Entry.listingAll es)
  | .expression e, used | .assignment e, used | .level _ e, used | .operand e, used
  | .unary e, used | .suffixed e, used | .primary e, used => Lists used e.listing

theorem Derives.listed {room : Nat} {inside : Bool} {next : TokenKind} {used : List Token}
    {construct : Construct} (h : Derives room inside next used construct) :
    construct.Listed used := by
  induction h with
  | statement _ ih | functionForm _ _ ih | blockForm _ ih | expression _ ih | assignment _ _ ih
  | level_nil _ ih | operand _ ih | unary_none _ _ ih | functionExpression _ ih
  | arguments _ ih => exact ih
  | statements_nil | arguments_nil | entries_nil => exact Lists.nil
  | operations_nil | suffixes_nil => exact ⟨[], (List.append_nil _).symm, Lists.nil⟩
  | statements_cons _ _ ih ihrest => exact ih.append ihrest
  | var hfirst hname hend =>
      exact ((Lists.ended hend).name hname).sign hfirst rfl
  | var_initial hfirst hname hsign _ hend ih =>
      have hvalue := ih.append (Lists.ended hend)
      rw [List.append_nil] at hvalue
      exact ((hvalue.sign hsign rfl).name hname).sign hfirst rfl
  | expressionForm _ hend _ ih =>
      have hvalue := ih.append (Lists.ended hend)
      rw [List.append_nil] at hvalue
      exact hvalue
  | conditional hfirst hopening _ hclosing _ _ ih ihbranch =>
      exact ((ih.append (ihbranch.skip hclosing rfl)).skip hopening rfl).sign hfirst rfl
  | conditional_else hfirst hopening _ hclosing _ hsign _ ih ihbranch ihother =>
      have hthen := (ih.append (ihbranch.skip hclosing rfl)).skip hopening rfl
      exact (hthen.append (ihother.sign hsign rfl)).sign hfirst rfl
  | whileLoop hfirst hopening _ hclosing _ ih ihbody =>
      exact ((ih.append (ihbody.skip hclosing rfl)).skip hopening rfl).sign hfirst rfl
  | returnForm hfirst hend => exact (Lists.ended hend).sign hfirst rfl
  | returnForm_value hfirst _ hend ih =>
      have hvalue := ih.append (Lists.ended hend)
      rw [List.append_nil] at hvalue
      exact hvalue.sign hfirst rfl
  | empty hmark => exact Lists.nil.skip hmark rfl
  | block hopening _ hclosing ih => exact (ih.skip_last hclosing rfl).skip hopening rfl
  | @function _ _ _ _ _ _ _ _ _ _ _ name hfirst hname hopening hparameters hclosing _ ih =>
      have hcode := (hparameters.lists.append (ih.skip hclosing rfl)).skip hopening rfl
      cases name with
      | none => exact hcode.sign hfirst rfl
      | some t => exact (hcode.name (hname t rfl)).sign hfirst rfl
  | assignment_sign _ hsign _ _ ih ihvalue => exact ih.append (ihvalue.sign hsign rfl)
  | level_cons _ _ ih ihchain | suffixed _ _ ih ihchain =>
      obtain ⟨words, hwords, hchain⟩ := ihchain
      have hwhole := ih.append hchain
      rw [← hwords] at hwhole
      exact hwhole
  | @operations_cons _ _ _ _ _ _ op _ _ left right e hmem hsign _ _ ih ihchain =>
      obtain ⟨words, hwords, hchain⟩ := ihchain
      refine ⟨.sign op.kind :: right.listing ++ words, ?_, ?_⟩
      · rw [hwords, Operator.listing_join, List.append_assoc]
      · have hkind := kind_of_lookup hmem hsign
        refine (ih.append hchain).sign hkind.symm ?_
        cases op with
        | binary op => cases op <;> rfl
        | logical op => cases op <;> rfl
  | unary hsign _ ih =>
      have hkind := kind_of_unaryOp? hsign
      refine ih.sign hkind ?_
      cases ‹UnaryOp› <;> rfl
  | @suffixes_call _ _ _ _ _ _ _ es left e hopening _ hclosing _ ih ihchain =>
      obtain ⟨words, hwords, hchain⟩ := ihchain
      refine ⟨Expr.listingAll es ++ words, ?_,
        (ih.append (hchain.skip hclosing rfl)).skip hopening rfl⟩
      rw [hwords, Expr.listing, List.append_assoc]
  | @suffixes_member _ _ _ _ name _ left e hsign hname _ ihchain =>
      obtain ⟨words, hwords, hchain⟩ := ihchain
      refine ⟨.property name.lexeme :: words, ?_, (hchain.property hname).skip hsign rfl⟩
      rw [hwords, Expr.listing, List.append_assoc]
      rfl
  | number ht hvalue => exact Lists.nil.cons (.number ht hvalue) (ht ▸ rfl)
  | string ht => exact Lists.nil.cons (.string ht) (ht ▸ rfl)
  | name ht => exact Lists.nil.name ht
  | this ht => exact Lists.nil.sign ht rfl
  | constant ht hvalue => 
      have hword := Lists.nil.sign ht rfl
      rw [← word_of_literal? hvalue] at hword
      exact hword
  | parentheses hopening _ hclosing ih | object hopening _ hclosing ih =>
      exact (ih.skip_last hclosing rfl).skip hopening rfl
  | items_one _ _ ih =>
      have hitems := ih.append Lists.nil
      rw [List.append_nil] at hitems
      exact hitems
  | items_cons _ hcomma _ ih ihrest => exact ih.append (ihrest.skip hcomma rfl)
  | entries_one hkey hcolon _ _ ih =>
      have hvalue := ih.append Lists.nil
      rw [List.append_nil] at hvalue
      exact (hvalue.skip hcolon rfl).key hkey
  | entries_cons hkey hcolon _ hcomma _ ih ihrest =>
      exact ((ih.append (ihrest.skip hcomma rfl)).skip hcolon rfl).key hkey

/-- Whatever a text compiles to, its tokens without the marks that group and separate say the
listing of that program. -/
theorem listed_of_accepted (source : String) (scratch : TextBuffer) (body : List Stmt)
    (h : (programOfSource source scratch).1 = .ok body) :
    ∃ tokens : List Token, (tokenize source scratch).1 = .ok tokens ∧
      List.Forall₂ Token.Says (tokens.filter (·.kind.isListed)) (Stmt.listingAll body) := by
  obtain ⟨front, stop, htokens, hfront, hderives⟩ := derives_of_programOfSource h
  exact ⟨_, htokens, Lists.skip_last hderives.listed rfl rfl⟩

/-- A text with most of what there is to list. -/
def listedText : String :=
  "if (a) b.c = typeof -d; else \x7b var x = 'y'; f(function (p) \x7b return p; \x7d); \x7d"

theorem listed_of_accepted_conditional :
    ∃ (body : List Stmt) (tokens : List Token), (programOfSource listedText .empty).1 = .ok body ∧
      (tokenize listedText .empty).1 = .ok tokens ∧
      List.Forall₂ Token.Says (tokens.filter (·.kind.isListed)) (Stmt.listingAll body) := by
  have haccepted : (programOfSource listedText .empty).1.isOk = true := by decide +kernel
  cases hbody : (programOfSource listedText .empty).1 with
  | error d =>
      rw [hbody] at haccepted
      cases haccepted
  | ok body =>
      obtain ⟨tokens, htokens, hlisted⟩ := listed_of_accepted listedText .empty body hbody
      exact ⟨body, tokens, rfl, htokens, hlisted⟩

end ScriptHost
