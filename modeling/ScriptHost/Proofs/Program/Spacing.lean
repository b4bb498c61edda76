import ScriptHost.Proofs.Program.Derived
import ScriptHost.Proofs.Program.Levels
import ScriptHost.Proofs.Token.Order

/-!
Where the parts of a tree stand. All through the tree of an accepted text, the parts of a construct
stand within it, in the order in which they are written and apart from one another. The proof
follows the grammar, with the offsets between which the tokens of a construct stand.
-/

namespace ScriptHost

namespace Tree

def span : Tree → Span
  | .stmt s => s.span
  | .expr e => e.span

/-- The parts of a construct, in the order in which they are written. -/
def parts (t : Tree) : List Tree := t.leftPart?.toList.map .expr ++ t.innerParts

mutual

/-- The tree stands somewhere, and the parts of every construct in it stand within that construct in
a row. -/
inductive Spaced : Tree → Prop
  | intro {t : Tree} (hspan : t.span.start < t.span.stop)
      (hparts : Row t.span.start t.span.stop t.parts) : Spaced t

/-- Between the two offsets the trees stand one behind the other. -/
inductive Row : Nat → Nat → List Tree → Prop
  | nil {first last : Nat} (h : first ≤ last) : Row first last []
  | cons {first last : Nat} {t : Tree} {rest : List Tree} (hfirst : first ≤ t.span.start)
      (ht : Spaced t) (hrest : Row t.span.stop last rest) : Row first last (t :: rest)

end

variable {t : Tree} {ts rest : List Tree} {first first' middle last last' : Nat}

theorem Spaced.lt (h : t.Spaced) : t.span.start < t.span.stop := by
  cases h with
  | intro hspan => exact hspan

theorem Spaced.row (h : t.Spaced) : Row t.span.start t.span.stop t.parts := by
  cases h with
  | intro _ hparts => exact hparts

namespace Row

theorem le (h : Row first last ts) : first ≤ last := by
  induction ts generalizing first with
  | nil =>
      cases h with
      | nil h => exact h
  | cons t rest ih =>
      cases h with
      | cons hfirst ht hrest =>
          have hlt := ht.lt
          have hle := ih hrest
          omega

theorem wider (h : Row first last ts) (hfirst : first' ≤ first) (hlast : last ≤ last') :
    Row first' last' ts := by
  induction ts generalizing first first' with
  | nil => exact .nil (by have := h.le; omega)
  | cons t rest ih =>
      cases h with
      | cons hstart ht hrest =>
          exact .cons (Nat.le_trans hfirst hstart) ht (ih hrest (Nat.le_refl _))

theorem append (h : Row first middle ts) (hrest : Row middle last rest) :
    Row first last (ts ++ rest) := by
  induction ts generalizing first with
  | nil => exact hrest.wider h.le (Nat.le_refl _)
  | cons t ts ih =>
      cases h with
      | cons hfirst ht hmore => exact .cons hfirst ht (ih hmore)

theorem one_iff : Row first last [t] ↔ t.Spaced ∧ first ≤ t.span.start ∧ t.span.stop ≤ last := by
  constructor
  · intro h
    cases h with
    | cons hfirst ht hrest => exact ⟨ht, hfirst, hrest.le⟩
  · rintro ⟨ht, hfirst, hlast⟩
    exact .cons hfirst ht (.nil hlast)

end Row

/-- A span lies between the two offsets, and the trees stand in it one behind the other. -/
structure Filled (first last : Nat) (span : Span) (ts : List Tree) : Prop where
  start : first ≤ span.start
  lt : span.start < span.stop
  stop : span.stop ≤ last
  row : Row span.start span.stop ts

theorem Row.of_filled (h : Filled first last t.span t.parts) : Row first last [t] :=
  one_iff.mpr ⟨.intro h.lt h.row, h.start, h.stop⟩

theorem Filled.empty {span : Span} (hfirst : first ≤ span.start) (hspan : span.start < span.stop)
    (hlast : span.stop ≤ last) : Filled first last span [] :=
  ⟨hfirst, hspan, hlast, .nil (Nat.le_of_lt hspan)⟩

theorem Row.expr {e : Expr} (h : Row first last [.expr e]) :
    first ≤ e.span.start ∧ e.span.start < e.span.stop ∧ e.span.stop ≤ last := by
  obtain ⟨ht, hstart, hstop⟩ := one_iff.mp h
  exact ⟨hstart, ht.lt, hstop⟩

theorem Row.self (h : Row first last [t]) : Row t.span.start t.span.stop [t] :=
  one_iff.mpr ⟨(one_iff.mp h).1, Nat.le_refl _, Nat.le_refl _⟩

/-- A token in front of a row may be passed over. -/
theorem Row.behind {token : Token} (h : Row token.span.stop last ts)
    (htoken : first ≤ token.span.start ∧ token.span.start < token.span.stop) : Row first last ts :=
  h.wider (by omega) (Nat.le_refl _)

/-- So may tokens behind it. -/
theorem Row.before {tokens : List Token} (h : Row first middle ts)
    (htokens : Ranged middle last tokens) : Row first last ts :=
  h.wider (Nat.le_refl _) htokens.le

/-- The last tree in a row ends it. -/
theorem Row.ended (h : Row first last (ts ++ [t])) :
    first < t.span.stop ∧ t.span.stop ≤ last ∧ Row first t.span.stop (ts ++ [t]) := by
  induction ts generalizing first with
  | nil =>
      obtain ⟨ht, hfirst, hlast⟩ := one_iff.mp h
      exact ⟨Nat.lt_of_le_of_lt hfirst ht.lt, hlast, one_iff.mpr ⟨ht, hfirst, Nat.le_refl _⟩⟩
  | cons u ts ih =>
      cases h with
      | cons hfirst hu hrest =>
          obtain ⟨hstop, hlast, hrow⟩ := ih hrest
          have hlt := hu.lt
          exact ⟨by omega, hlast, .cons hfirst hu hrow⟩

/-- A construct that begins with a token and ends with the last of its parts. -/
theorem Filled.after {token : Token}
    (htoken : first ≤ token.span.start ∧ token.span.start < token.span.stop) (ts : List Tree)
    (t : Tree) (h : Row token.span.stop last (ts ++ [t])) :
    Filled first last (token.span.through t.span) (ts ++ [t]) := by
  obtain ⟨hstop, hlast, hrow⟩ := h.ended
  exact ⟨htoken.1, Nat.lt_trans htoken.2 hstop, hlast,
    hrow.wider (Nat.le_of_lt htoken.2) (Nat.le_refl _)⟩

/-- A construct that begins with its left part. -/
theorem Filled.led {e : Expr} {stop : Nat} (hleft : Row first middle [.expr e])
    (h : Row middle stop ts) (hstop : stop ≤ last) :
    Filled first last ⟨e.span.start, stop⟩ (.expr e :: ts) := by
  obtain ⟨hstart, hlt, hend⟩ := hleft.expr
  have hle := h.le
  exact ⟨hstart, Nat.lt_of_lt_of_le hlt (Nat.le_trans hend hle), hstop,
    hleft.self.append (h.wider hend (Nat.le_refl _))⟩

/-- A construct whose left part is joined with an expression behind a sign. -/
theorem Filled.joined {left right : Expr} {sign : Token} (hleft : Row first middle [.expr left])
    (hsign : middle ≤ sign.span.start ∧ sign.span.start < sign.span.stop)
    (hright : Row sign.span.stop last [.expr right]) :
    Filled first last (left.span.through right.span) [.expr left, .expr right] := by
  have hbehind : Row middle last ([] ++ [.expr right]) := hright.behind hsign
  obtain ⟨-, hlast, hrow⟩ := hbehind.ended
  exact .led hleft hrow hlast

/-- A construct that is enclosed by two tokens. -/
theorem Filled.between {opening closing : Token} {used : List Token}
    (hused : Ranged first last (opening :: used ++ [closing]))
    (h : ∀ {middle}, Ranged opening.span.stop middle used → Row opening.span.stop middle ts) :
    Filled first last (opening.span.through closing.span) ts := by
  obtain ⟨hopening, hrest⟩ := hused
  obtain ⟨middle, hinner, hclosing, hlast⟩ := hrest.exists_of_append
  have hrow := h hinner
  have hle := hrow.le
  have hspan : opening.span.start < closing.span.stop := by omega
  have hparts : Row opening.span.start closing.span.stop ts := hrow.wider (by omega) (by omega)
  exact ⟨hopening.1, hspan, hlast, hparts⟩

@[simp] theorem parts_join (op : Operator) (left right : Expr) :
    (expr (op.join left right)).parts = [expr left, expr right] := by
  cases op <;> rfl

@[simp] theorem span_join (op : Operator) (left right : Expr) :
    (expr (op.join left right)).span = left.span.through right.span := by
  cases op <;> rfl

end Tree

open ScriptHost.Tree

/-- Where a construct stands whose tokens stand between the two offsets. What goes on from a left
operand stands from where that begins. -/
def Construct.Stands (first last : Nat) : Construct → Prop
  | .statements body => Row first last (body.map .stmt)
  | .statement s | .form s => Row first last [.stmt s]
  | .block body span => Filled first last span (body.map .stmt)
  | .function code span => Filled first last span (code.body.map .stmt)
  | .operations _ _ left e | .suffixes left e =>
    ∀ start, Row start first [.expr left] → Row start last [.expr e]
  | .arguments es | .items es => Row first last (es.map .expr)
  | .entries es => Row first last (es.map fun entry => .expr entry.value)
  | .expression e | .assignment e | .level _ e | .operand e | .unary e | .suffixed e
  | .primary e => Row first last [.expr e]

theorem Derives.stands {room : Nat} {inside : Bool} {next : TokenKind} {used : List Token}
    {construct : Construct} (h : Derives room inside next used construct) {first last : Nat}
    (hused : Ranged first last used) : construct.Stands first last := by
  induction h generalizing first last with
  | statement _ ih | expression _ ih | assignment _ _ ih
  | level_nil _ ih | operand _ ih | unary_none _ _ ih
  | arguments _ ih | items_one _ _ ih => exact ih hused
  | statements_nil | arguments_nil | entries_nil => exact .nil hused
  | operations_nil | suffixes_nil =>
      intro start hleft
      exact hleft.wider (Nat.le_refl _) hused
  | statements_cons _ _ ih ihrest =>
      obtain ⟨middle, hfirst, hrest⟩ := hused.exists_of_append
      exact (ih hfirst).append (ihrest hrest)
  | functionForm _ _ ih | functionExpression _ ih | blockForm _ ih => exact .of_filled (ih hused)
  | @var _ _ _ word name =>
      obtain ⟨hword, hname, hrest⟩ := hused
      have hlt : word.span.start < name.span.stop := by omega
      exact .of_filled (.empty hword.1 hlt hrest.le)
  | @var_initial _ _ _ word name sign value ending e _ _ _ _ _ ih =>
      obtain ⟨hword, hname, hsign, hrest⟩ := hused
      obtain ⟨middle, hvalue, hending⟩ := hrest.exists_of_append
      have hrow := (((ih hvalue).before hending).behind hsign).behind hname
      exact .of_filled (.after hword [] (.expr e) hrow)
  | expressionForm _ _ _ ih =>
      obtain ⟨middle, hvalue, hending⟩ := hused.exists_of_append
      have hrow := (ih hvalue).before hending
      obtain ⟨hstart, hlt, hstop⟩ := hrow.expr
      exact .of_filled ⟨hstart, hlt, hstop, hrow.self⟩
  | @conditional _ _ _ word opening condition closing branch e s _ _ _ _ _ _ ih ihbranch
  | @whileLoop _ _ _ word opening condition closing branch e s _ _ _ _ _ ih ihbranch =>
      obtain ⟨hword, hopening, hrest⟩ := hused
      obtain ⟨middle, hcondition, hclosing, hbranch⟩ := hrest.exists_of_append
      have hrow := (ih hcondition).append ((ihbranch hbranch).behind hclosing)
      exact .of_filled (.after hword [.expr e] (.stmt s) (hrow.behind hopening))
  | @conditional_else _ _ _ word opening condition closing branch sign other e s t _ _ _ _ _ _ _
      ih ihbranch ihother =>
      obtain ⟨hword, hopening, hrest⟩ := hused
      obtain ⟨middle', hfront, hsign, hother⟩ := hrest.exists_of_append
      obtain ⟨middle, hcondition, hclosing, hbranch⟩ := hfront.exists_of_append
      have hbranches := ((ihbranch hbranch).behind hclosing).append ((ihother hother).behind hsign)
      have hrow := ((ih hcondition).append hbranches).behind hopening
      exact .of_filled (.after hword [.expr e, .stmt s] (.stmt t) hrow)
  | returnForm =>
      obtain ⟨hword, hrest⟩ := hused
      exact .of_filled (.empty hword.1 hword.2 hrest.le)
  | @returnForm_value _ _ word value ending e _ _ _ ih =>
      obtain ⟨hword, hrest⟩ := hused
      obtain ⟨middle, hvalue, hending⟩ := hrest.exists_of_append
      exact .of_filled (.after hword [] (.expr e) ((ih hvalue).before hending))
  | empty | number | string | name | this | constant =>
      exact .of_filled (.empty hused.1.1 hused.1.2 hused.2)
  | block _ _ _ ih => exact .between hused ih
  | @function _ _ _ word opening parameters closing used names body span name _ _ _ _ _ _ ih =>
      obtain ⟨hword, hrest⟩ := hused
      obtain ⟨middle', hfront, hclosing, hbody⟩ := hrest.exists_of_append
      obtain ⟨middle, hname, hopening, hparameters⟩ := hfront.exists_of_append
      obtain ⟨hstart, hlt, hstop, hrow⟩ := ih hbody
      have hle := hname.le
      have hle' := hparameters.le
      have hspan : word.span.start < span.stop := by omega
      have hparts : Row word.span.start span.stop (body.map .stmt) :=
        hrow.wider (by omega) (Nat.le_refl _)
      exact ⟨hword.1, hspan, hstop, hparts⟩
  | assignment_sign _ _ _ _ ih ihvalue =>
      obtain ⟨middle, htarget, hsign, hvalue⟩ := hused.exists_of_append
      exact .of_filled (.joined (ih htarget) hsign (ihvalue hvalue))
  | level_cons _ _ ih ihchain | suffixed _ _ ih ihchain =>
      obtain ⟨middle, hleft, hchain⟩ := hused.exists_of_append
      exact ihchain hchain first (ih hleft)
  | operations_cons _ _ _ _ ih ihchain =>
      intro start hleft
      obtain ⟨hsign, hrest⟩ := hused
      obtain ⟨middle, hright, hchain⟩ := hrest.exists_of_append
      refine ihchain hchain start (.of_filled ?_)
      rw [parts_join, span_join]
      exact .joined hleft hsign (ih hright)
  | @unary _ _ _ sign op used e _ _ ih =>
      obtain ⟨hsign, hoperand⟩ := hused
      exact .of_filled (.after hsign [] (.expr e) (ih hoperand))
  | @suffixes_call _ _ _ opening used closing chain es left e _ _ _ _ ih ihchain =>
      intro start hleft
      obtain ⟨hopening, hrest⟩ := hused
      obtain ⟨middle, harguments, hclosing, hchain⟩ := hrest.exists_of_append
      have hend : middle ≤ closing.span.stop := by omega
      have hrow := ((ih harguments).behind hopening).wider (Nat.le_refl _) hend
      exact ihchain hchain start (.of_filled (.led hleft hrow (Nat.le_refl _)))
  | @suffixes_member _ _ _ sign name chain left e _ _ _ ihchain =>
      intro start hleft
      obtain ⟨hsign, hname, hchain⟩ := hused
      have hend : first ≤ name.span.stop := by omega
      exact ihchain hchain start (.of_filled (.led hleft (.nil hend) (Nat.le_refl _)))
  | parentheses _ _ _ ih =>
      obtain ⟨hopening, hrest⟩ := hused
      obtain ⟨middle, hinner, hclosing⟩ := hrest.exists_of_append
      exact ((ih hinner).before hclosing).behind hopening
  | object _ _ _ ih => exact .of_filled (.between hused ih)
  | items_cons _ _ _ ih ihrest =>
      obtain ⟨middle, hitem, hcomma, hrest⟩ := hused.exists_of_append
      exact (ih hitem).append ((ihrest hrest).behind hcomma)
  | entries_one _ _ _ _ ih =>
      obtain ⟨hkey, hcolon, hvalue⟩ := hused
      exact ((ih hvalue).behind hcolon).behind hkey
  | entries_cons _ _ _ _ _ ih ihrest =>
      obtain ⟨hkey, hcolon, hafter⟩ := hused
      obtain ⟨middle, hvalue, hcomma, hrest⟩ := hafter.exists_of_append
      exact (((ih hvalue).append ((ihrest hrest).behind hcomma)).behind hcolon).behind hkey

/-- The statements of an accepted text stand in a row, and everything in them is spaced. -/
theorem exists_row_of_programOfSource {source : String} {scratch : TextBuffer} {body : List Stmt}
    (h : (programOfSource source scratch).1 = .ok body) :
    ∃ last, Row 0 last (body.map .stmt) := by
  obtain ⟨front, stop, htokens, -, hderives⟩ := derives_of_programOfSource h
  exact ⟨stop, hderives.stands (ranged_of_scanFrom htokens)⟩

end ScriptHost
