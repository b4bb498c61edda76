import ScriptHost.Program.Parser
import ScriptHost.Proofs.Program.Respan
import ScriptHost.Proofs.Program.Tracking

/-!
Token lists that differ in their spans alone hold the same program, but for its spans, or are
refused for the same reason. The lemmas follow the productions; each one says that a production
over one pair of parsers for the next level tracks the same production over the other.
-/

namespace ScriptHost

open ScriptHost.Parser

variable {r : Respan} {kinds : TokenKind → Prop}

/-- An expression and what a view makes of it. -/
abbrev Respan.Expr (r : Respan) (e e' : ScriptHost.Expr) : Prop := e' = e.mapSpans r.view

/-- A statement and what a view makes of it. -/
abbrev Respan.Stmt (r : Respan) (s s' : ScriptHost.Stmt) : Prop := s' = s.mapSpans r.view

/-- Statements with their span and what a view makes of them. -/
def Respan.Block (r : Respan) (b b' : List ScriptHost.Stmt × Span) : Prop :=
  b' = (Stmt.mapSpansAll r.view b.1, r.view b.2)

/-- A function with its span and what a view makes of it. -/
def Respan.Function (r : Respan) (f f' : FunctionCode × Span) : Prop :=
  f' = (f.1.mapSpans r.view, r.view f.2)

/-- Parsers for one level less that track one another. -/
structure Deeper.Tracks (r : Respan) (d d' : Deeper) : Prop where
  statement : TracksAny r r.Stmt d.statement d'.statement
  expression : TracksAny r r.Expr d.expression d'.expression
  operand : TracksAny r r.Expr d.operand d'.operand

theorem lexeme_of_rel {name name' : Option Token} (h : Option.Rel (Token.Tracks r) name name') :
    name'.map Token.lexeme = name.map Token.lexeme := by
  cases h with
  | none => rfl
  | some h => exact congrArg some h.lexeme

theorem lexemes_of_forall₂ {names names' : List Token}
    (h : List.Forall₂ (Token.Tracks r) names names') :
    names'.map Token.lexeme = names.map Token.lexeme := by
  induction h with
  | nil => rfl
  | cons hhead _ ih => rw [List.map_cons, List.map_cons, hhead.lexeme, ih]

namespace Deeper

variable {d d' : Deeper}

theorem Tracks.block (h : d.Tracks r d') : TracksAny r r.Block d.block d'.block := by
  refine Parser.Tracks.bind (tracks_expect (by simp) _) ?_
  intro first first' hfirst
  refine tracks_tokensLeft_bind ?_
  intro bound bound' hbound
  refine Parser.Tracks.bind (h.statement.manyUntil hbound) ?_
  intro body body' hbody
  refine Parser.Tracks.bind (tracks_expect (by simp) _) ?_
  intro last last' hlast
  refine tracks_pure ?_
  rw [Respan.Block, Stmt.mapSpansAll_of_forall₂ hbody, hfirst.span, hlast.span, r.view_through]

theorem Tracks.function (h : d.Tracks r d') (hkinds : ∀ kind, kinds kind → kind ≠ .endOfText) :
    Parser.Tracks r kinds r.Function d.function d'.function := by
  refine Parser.Tracks.bind (tracks_advance hkinds) ?_
  intro first first' hfirst
  refine Parser.Tracks.bind (tracks_accept? (by simp)) ?_
  intro name name' hname
  refine Parser.Tracks.bind (tracks_expect (by simp) _).discard ?_
  intro _ _ _
  refine Parser.Tracks.bind (tracks_expect (by simp) _).separatedUntil ?_
  intro parameters parameters' hparameters
  refine Parser.Tracks.bind (tracks_expect (by simp) _).discard ?_
  intro _ _ _
  refine Parser.Tracks.bind h.block.inFunction ?_
  rintro ⟨body, span⟩ _ rfl
  refine tracks_pure ?_
  rw [Respan.Function, hfirst.span, r.view_through, FunctionCode.mapSpans,
    lexeme_of_rel hname, lexemes_of_forall₂ hparameters]

theorem tracks_key : Parser.Tracks r kinds (Token.Tracks r) key key := by
  refine tracks_peekKind_bind ?_
  intro kind _
  split
  · exact tracks_advance (by rintro _ rfl; simp)
  · exact tracks_advance (by rintro _ rfl; simp)
  · exact tracks_expectProperty _

theorem Tracks.entries (h : d.Tracks r d') {bound bound' : List Token}
    (hbound : bound'.length = bound.length) :
    Parser.Tracks r kinds (List.Forall₂ fun e e' => e' = Entry.mapSpans r.view e)
      (d.entries bound) (d'.entries bound') := by
  induction bound generalizing bound' kinds with
  | nil =>
      obtain rfl := List.length_eq_zero_iff.mp hbound
      exact tracks_pure .nil
  | cons token bound ih =>
      obtain ⟨token', bound', rfl⟩ := List.exists_cons_of_length_eq_add_one hbound
      rw [Deeper.entries, Deeper.entries]
      refine tracks_peekKind_bind ?_
      intro kind _
      split
      · exact tracks_pure .nil
      · refine Parser.Tracks.bind tracks_key ?_
        intro key key' hkey
        refine Parser.Tracks.bind (tracks_expect (by simp) _).discard ?_
        intro _ _ _
        refine Parser.Tracks.bind h.expression ?_
        rintro value _ rfl
        have hentry : (⟨key'.lexeme, value.mapSpans r.view⟩ : Entry) =
            Entry.mapSpans r.view ⟨key.lexeme, value⟩ := by
          rw [hkey.lexeme, Entry.mapSpans]
        refine Parser.Tracks.bind (tracks_accept? (by simp)) ?_
        intro comma comma' hcomma
        cases hcomma with
        | none => exact tracks_pure (.cons hentry .nil)
        | some _ =>
            refine Parser.Tracks.bind (ih (Nat.succ.inj hbound)) ?_
            intro entries entries' hentries
            exact tracks_pure (.cons hentry hentries)

theorem Tracks.primary (h : d.Tracks r d') : TracksAny r r.Expr d.primary d'.primary := by
  refine tracks_peekKind_bind ?_
  intro kind _
  split
  · refine Parser.Tracks.bind (tracks_advance (by rintro _ rfl; simp)) ?_
    intro token token' htoken
    rw [htoken.lexeme, htoken.span]
    split
    · exact tracks_pure rfl
    · exact tracks_refuse _ rfl
  · refine Parser.Tracks.bind (tracks_advance (by rintro _ rfl; simp)) ?_
    intro token token' htoken
    rw [htoken.lexeme, htoken.span]
    exact tracks_pure rfl
  · refine Parser.Tracks.bind (tracks_advance (by rintro _ rfl; simp)) ?_
    intro token token' htoken
    rw [htoken.lexeme, htoken.span]
    exact tracks_pure rfl
  · refine Parser.Tracks.bind (tracks_advance (by rintro _ rfl; simp)) ?_
    intro token token' htoken
    rw [htoken.span]
    exact tracks_pure rfl
  · refine Parser.Tracks.bind (h.function (by rintro _ rfl; simp)) ?_
    rintro ⟨code, span⟩ _ rfl
    exact tracks_pure rfl
  · refine Parser.Tracks.bind (tracks_advance (by rintro _ rfl; simp)).discard ?_
    intro _ _ _
    refine Parser.Tracks.bind h.expression ?_
    intro inner inner' hinner
    refine Parser.Tracks.bind (tracks_expect (by simp) _).discard ?_
    intro _ _ _
    exact tracks_pure hinner
  · refine Parser.Tracks.bind (tracks_advance (by rintro _ rfl; simp)) ?_
    intro first first' hfirst
    refine tracks_tokensLeft_bind ?_
    intro bound bound' hbound
    refine Parser.Tracks.bind (h.entries hbound) ?_
    intro entries entries' hentries
    refine Parser.Tracks.bind (tracks_expect (by simp) _) ?_
    intro last last' hlast
    rw [hfirst.span, hlast.span, ← r.view_through, Entry.mapSpansAll_of_forall₂ hentries]
    exact tracks_pure rfl
  · split
    · refine Parser.Tracks.bind (tracks_advance (by rintro _ rfl; simp)) ?_
      intro token token' htoken
      rw [htoken.span]
      exact tracks_pure rfl
    · exact tracks_refuseNext _
  · exact tracks_refuseNext _

theorem Tracks.suffixes (h : d.Tracks r d') {bound bound' : List Token}
    (hbound : bound'.length = bound.length) (e : Expr) :
    Parser.Tracks r kinds r.Expr (d.suffixes bound e) (d'.suffixes bound' (e.mapSpans r.view)) := by
  induction bound generalizing bound' kinds e with
  | nil =>
      obtain rfl := List.length_eq_zero_iff.mp hbound
      exact tracks_pure rfl
  | cons token bound ih =>
      obtain ⟨token', bound', rfl⟩ := List.exists_cons_of_length_eq_add_one hbound
      rw [Deeper.suffixes, Deeper.suffixes]
      refine tracks_peekKind_bind ?_
      intro kind _
      split
      · refine Parser.Tracks.bind (tracks_advance (by rintro _ rfl; simp)).discard ?_
        intro _ _ _
        refine Parser.Tracks.bind tracks_descend ?_
        intro _ _ _
        refine Parser.Tracks.bind h.expression.separatedUntil ?_
        intro arguments arguments' harguments
        refine Parser.Tracks.bind (tracks_expect (by simp) _) ?_
        intro last last' hlast
        rw [Expr.span_mapSpans, hlast.span, ← r.view_through,
          Expr.mapSpansAll_of_forall₂ harguments]
        exact ih (Nat.succ.inj hbound) (.call (e.span.through last.span) e arguments)
      · refine Parser.Tracks.bind (tracks_advance (by rintro _ rfl; simp)).discard ?_
        intro _ _ _
        refine Parser.Tracks.bind tracks_descend ?_
        intro _ _ _
        refine Parser.Tracks.bind (tracks_expectProperty _) ?_
        intro name name' hname
        rw [Expr.span_mapSpans, hname.span, hname.lexeme, ← r.view_through]
        exact ih (Nat.succ.inj hbound) (.member (e.span.through name.span) e name.lexeme)
      · exact tracks_pure rfl

theorem Tracks.suffixed (h : d.Tracks r d') : TracksAny r r.Expr d.suffixed d'.suffixed := by
  refine Parser.Tracks.bind h.primary ?_
  rintro e _ rfl
  refine Parser.Tracks.restoringDepth ?_
  refine tracks_tokensLeft_bind ?_
  intro bound bound' hbound
  exact h.suffixes hbound e

theorem Tracks.unary (h : d.Tracks r d') : TracksAny r r.Expr d.unary d'.unary := by
  refine tracks_peekKind_bind ?_
  intro kind _
  split
  · rename_i op hop
    have hproper : ∀ other, other = kind → other ≠ .endOfText := by
      rintro _ rfl rfl
      contradiction
    refine Parser.Tracks.bind (tracks_advance hproper) ?_
    intro first first' hfirst
    refine Parser.Tracks.bind h.operand ?_
    rintro operand _ rfl
    rw [hfirst.span, Expr.span_mapSpans, ← r.view_through]
    exact tracks_pure rfl
  · exact Parser.Tracks.of_any h.suffixed

theorem tracks_operations {operators : List (TokenKind × Operator)}
    (hoperators : operators.lookup .endOfText = none) {operand operand' : Parser Expr}
    (h : TracksAny r r.Expr operand operand') {bound bound' : List Token}
    (hbound : bound'.length = bound.length) (left : Expr) :
    Parser.Tracks r kinds r.Expr (operations operators operand bound left)
      (operations operators operand' bound' (left.mapSpans r.view)) := by
  induction bound generalizing bound' kinds left with
  | nil =>
      obtain rfl := List.length_eq_zero_iff.mp hbound
      exact tracks_pure rfl
  | cons token bound ih =>
      obtain ⟨token', bound', rfl⟩ := List.exists_cons_of_length_eq_add_one hbound
      rw [Deeper.operations, Deeper.operations]
      refine tracks_peekKind_bind ?_
      intro kind _
      split
      · rename_i op hop
        have hproper : ∀ other, other = kind → other ≠ .endOfText := by
          rintro _ rfl rfl
          rw [hoperators] at hop
          contradiction
        refine Parser.Tracks.bind (tracks_advance hproper).discard ?_
        intro _ _ _
        refine Parser.Tracks.bind tracks_descend ?_
        intro _ _ _
        refine Parser.Tracks.bind h ?_
        rintro right _ rfl
        rw [Operator.join_mapSpans r.view_through]
        exact ih (Nat.succ.inj hbound) (op.join left right)
      · exact tracks_pure rfl

theorem Tracks.level (h : d.Tracks r d') (levels : List (List (TokenKind × Operator)))
    (hlevels : ∀ operators ∈ levels, operators.lookup .endOfText = none) :
    TracksAny r r.Expr (d.level levels) (d'.level levels) := by
  induction levels with
  | nil => exact h.unary
  | cons operators tighter ih =>
      have htighter := ih fun o hmem => hlevels o (List.mem_cons_of_mem _ hmem)
      refine Parser.Tracks.bind htighter ?_
      rintro left _ rfl
      refine Parser.Tracks.restoringDepth ?_
      refine tracks_tokensLeft_bind ?_
      intro bound bound' hbound
      exact tracks_operations (hlevels operators List.mem_cons_self) htighter hbound left

theorem Tracks.assignment (h : d.Tracks r d') : TracksAny r r.Expr d.assignment d'.assignment := by
  refine Parser.Tracks.bind (h.level operatorLevels (by decide)) ?_
  rintro target _ rfl
  refine Parser.Tracks.bind (tracks_accept? (by simp)) ?_
  intro sign sign' hsign
  cases hsign with
  | none => exact tracks_pure rfl
  | some hsign =>
      refine Parser.Tracks.bind h.expression ?_
      rintro value _ rfl
      rw [Expr.isAssignable_mapSpans]
      split
      · rw [Expr.span_mapSpans, Expr.span_mapSpans, ← r.view_through]
        exact tracks_pure rfl
      · exact tracks_refuse _ hsign.span

theorem Tracks.condition (h : d.Tracks r d') : TracksAny r r.Expr d.condition d'.condition := by
  refine Parser.Tracks.bind (tracks_expect (by simp) _).discard ?_
  intro _ _ _
  refine Parser.Tracks.bind h.expression ?_
  intro condition condition' hcondition
  refine Parser.Tracks.bind (tracks_expect (by simp) _).discard ?_
  intro _ _ _
  exact tracks_pure hcondition

theorem tracks_optionalSemicolon :
    Parser.Tracks r kinds (fun _ _ => True) optionalSemicolon optionalSemicolon :=
  (tracks_accept? (by simp)).discard

theorem Tracks.varDeclaration (h : d.Tracks r d')
    (hkinds : ∀ kind, kinds kind → kind ≠ .endOfText) :
    Parser.Tracks r kinds r.Stmt d.varDeclaration d'.varDeclaration := by
  refine Parser.Tracks.bind (tracks_advance hkinds) ?_
  intro first first' hfirst
  refine Parser.Tracks.bind (tracks_expect (by simp) _) ?_
  intro name name' hname
  refine Parser.Tracks.bind (h.expression.following? (by simp)) ?_
  intro initial initial' hinitial
  refine Parser.Tracks.bind tracks_optionalSemicolon ?_
  intro _ _ _
  rw [Expr.mapSpansOption_of_rel hinitial, hfirst.span, hname.span, hname.lexeme,
    Expr.span_mapSpansOption, ← r.view_through]
  exact tracks_pure rfl

theorem Tracks.conditional (h : d.Tracks r d')
    (hkinds : ∀ kind, kinds kind → kind ≠ .endOfText) :
    Parser.Tracks r kinds r.Stmt d.conditional d'.conditional := by
  refine Parser.Tracks.bind (tracks_advance hkinds) ?_
  intro first first' hfirst
  refine Parser.Tracks.bind h.condition ?_
  rintro condition _ rfl
  refine Parser.Tracks.bind h.statement ?_
  rintro thenBranch _ rfl
  refine Parser.Tracks.bind (h.statement.following? (by simp)) ?_
  intro elseBranch elseBranch' helse
  dsimp only
  rw [Stmt.mapSpansOption_of_rel helse, hfirst.span, Stmt.span_mapSpans, Stmt.span_mapSpansOption,
    ← r.view_through]
  exact tracks_pure rfl

theorem Tracks.whileLoop (h : d.Tracks r d')
    (hkinds : ∀ kind, kinds kind → kind ≠ .endOfText) :
    Parser.Tracks r kinds r.Stmt d.whileLoop d'.whileLoop := by
  refine Parser.Tracks.bind (tracks_advance hkinds) ?_
  intro first first' hfirst
  refine Parser.Tracks.bind h.condition ?_
  rintro condition _ rfl
  refine Parser.Tracks.bind h.statement ?_
  rintro body _ rfl
  rw [hfirst.span, Stmt.span_mapSpans, ← r.view_through]
  exact tracks_pure rfl

theorem Tracks.returnValue (h : d.Tracks r d') :
    TracksAny r (Option.Rel r.Expr) d.returnValue d'.returnValue := by
  refine tracks_peekKind_bind ?_
  intro kind _
  have hvalue : Parser.Tracks r (· = kind) (Option.Rel r.Expr)
      (do return some (← d.expression)) (do return some (← d'.expression)) := by
    refine Parser.Tracks.bind (Parser.Tracks.of_any h.expression) ?_
    intro value value' hvalue
    exact tracks_pure (.some hvalue)
  split
  · exact tracks_pure .none
  · exact tracks_pure .none
  · exact tracks_pure .none
  · exact hvalue

theorem Tracks.returnStatement (h : d.Tracks r d')
    (hkinds : ∀ kind, kinds kind → kind ≠ .endOfText) :
    Parser.Tracks r kinds r.Stmt d.returnStatement d'.returnStatement := by
  refine Parser.Tracks.bind (tracks_advance hkinds) ?_
  intro first first' hfirst
  have hreturn : TracksAny r r.Stmt
      (do
        let value ← d.returnValue
        optionalSemicolon
        return .return (first.span.through ((value.map Expr.span).getD first.span)) value)
      (do
        let value ← d'.returnValue
        optionalSemicolon
        return .return (first'.span.through ((value.map Expr.span).getD first'.span)) value) := by
    refine Parser.Tracks.bind h.returnValue ?_
    intro value value' hvalue
    refine Parser.Tracks.bind tracks_optionalSemicolon ?_
    intro _ _ _
    rw [Expr.mapSpansOption_of_rel hvalue, hfirst.span, Expr.span_mapSpansOption, ← r.view_through]
    exact tracks_pure rfl
  refine tracks_get_bind ?_
  intro c c' hcursor
  rw [hcursor.functionDepth]
  split
  · exact tracks_refuse _ hfirst.span
  · exact hreturn

theorem Tracks.expressionStatement (h : d.Tracks r d') :
    TracksAny r r.Stmt d.expressionStatement d'.expressionStatement := by
  refine Parser.Tracks.bind h.expression ?_
  rintro value _ rfl
  refine Parser.Tracks.bind tracks_optionalSemicolon ?_
  intro _ _ _
  rw [Expr.span_mapSpans]
  exact tracks_pure rfl

theorem Tracks.anyStatement (h : d.Tracks r d') : TracksAny r r.Stmt d.anyStatement d'.anyStatement := by
  refine tracks_peekKind_bind ?_
  intro kind _
  split
  · exact h.varDeclaration (by rintro _ rfl; simp)
  · refine tracks_peekSecondKind_bind ?_
    intro second
    split
    · refine Parser.Tracks.bind (h.function (by rintro _ rfl; simp)) ?_
      rintro ⟨code, span⟩ _ rfl
      exact tracks_pure rfl
    · exact Parser.Tracks.of_any h.expressionStatement
  · exact h.conditional (by rintro _ rfl; simp)
  · exact h.whileLoop (by rintro _ rfl; simp)
  · exact h.returnStatement (by rintro _ rfl; simp)
  · refine Parser.Tracks.bind (Parser.Tracks.of_any h.block) ?_
    rintro ⟨body, span⟩ _ rfl
    exact tracks_pure rfl
  · refine Parser.Tracks.bind (tracks_advance (by rintro _ rfl; simp)) ?_
    intro token token' htoken
    rw [htoken.span]
    exact tracks_pure rfl
  · exact Parser.Tracks.of_any h.expressionStatement

theorem Tracks.above (h : d.Tracks r d') : d.above.Tracks r d'.above :=
  ⟨h.anyStatement.nested, h.assignment.nested, h.unary.deepened⟩

/-- Parsers that may go down as many levels track one another, and so do those that may go down
fewer levels, where a limit may cut the first short. -/
theorem tracks_ofAllowance {allowance allowance' : Nat}
    (h : allowance' = allowance ∨ r.cut ∧ allowance ≤ allowance') :
    (ofAllowance allowance).Tracks r (ofAllowance allowance') := by
  induction allowance generalizing allowance' with
  | zero =>
      rcases h with rfl | ⟨hcut, -⟩
      · exact ⟨tracks_tooDeep, tracks_tooDeep, tracks_tooDeep⟩
      · exact ⟨tracks_tooDeep_left hcut _, tracks_tooDeep_left hcut _, tracks_tooDeep_left hcut _⟩
  | succ allowance ih =>
      cases allowance' with
      | zero =>
          rcases h with h | ⟨-, h⟩
          · simp at h
          · simp at h
      | succ allowance' =>
          have hfewer : allowance' = allowance ∨ r.cut ∧ allowance ≤ allowance' := by
            rcases h with h | ⟨hcut, h⟩
            · exact .inl (Nat.succ.inj h)
            · exact .inr ⟨hcut, Nat.le_of_succ_le_succ h⟩
          exact (ih hfewer).above

end Deeper

theorem tracks_program :
    TracksAny r (List.Forall₂ r.Stmt) program program := by
  refine tracks_get_bind ?_
  intro c c' hcursor
  refine tracks_tokensLeft_bind ?_
  intro bound bound' hbound
  exact (Deeper.tracks_ofAllowance hcursor.limit).statement.manyUntil hbound

/-- Programs that correspond, refusals that do, or a refusal of the first for its limit. -/
inductive Respan.Agree (r : Respan) :
    Except Diagnostic (List ScriptHost.Stmt) → Except Diagnostic (List ScriptHost.Stmt) → Prop
  | ok (body : List ScriptHost.Stmt) : Agree r (.ok body) (.ok (Stmt.mapSpansAll r.view body))
  | error {d e : Diagnostic} (h : d.Matches r e) : Agree r (.error d) (.error e)
  | cut {d : Diagnostic} {result : Except Diagnostic (List ScriptHost.Stmt)} (hcut : r.cut)
      (hdeep : d.IsTooDeep) : Agree r (.error d) result

/-- Token lists that differ in their spans alone hold programs that do, or are refused alike. -/
theorem agree_programWithin {limit limit' : Nat} {tokens tokens' : List Token}
    (hlimit : limit' = limit ∨ r.cut ∧ limit ≤ limit')
    (htokens : List.Forall₂ (Token.Matches r) tokens tokens') :
    r.Agree (programWithin limit tokens) (programWithin limit' tokens') := by
  have hcursor : Cursor.Matches r ⟨tokens, limit, 0, 0⟩ ⟨tokens', limit', 0, 0⟩ :=
    ⟨htokens, hlimit, rfl, rfl⟩
  have hprogram := tracks_program _ _ hcursor trivial
  unfold programWithin
  generalize program ⟨tokens, limit, 0, 0⟩ = result at hprogram ⊢
  generalize program ⟨tokens', limit', 0, 0⟩ = result' at hprogram ⊢
  cases hprogram with
  | ok hbody hcursor =>
      obtain rfl := Stmt.mapSpansAll_of_forall₂ hbody
      exact .ok _
  | error hrefused => exact .error hrefused
  | cut hcut hdeep => exact .cut hcut hdeep

/-- The view that sees two token lists as they are, one of them under a lower limit. -/
def Respan.limited : Respan where
  view := id
  atEnd := Eq
  cut := True
  view_through := Respan.id_through
  atEnd_missing := rfl

/-- A lower limit leaves a program as it is or refuses it for its nesting. -/
theorem programWithin_of_le {limit other : Nat} {tokens : List Token} {body : List Stmt}
    (hlimit : limit ≤ other) (h : programWithin other tokens = .ok body) :
    programWithin limit tokens = .ok body ∨
      ∃ d : Diagnostic, programWithin limit tokens = .error d ∧ d.IsTooDeep := by
  have htokens : List.Forall₂ (Token.Matches .limited) tokens tokens :=
    List.forall₂_same.mpr fun a _ => ⟨rfl, rfl, .inl rfl⟩
  have hagree : Respan.limited.Agree (programWithin limit tokens) (programWithin other tokens) :=
    agree_programWithin (.inr ⟨trivial, hlimit⟩) htokens
  rw [h] at hagree
  generalize programWithin limit tokens = result at hagree ⊢
  generalize hwhole : Except.ok body = whole at hagree ⊢
  cases hagree with
  | ok body' =>
      left
      change Except.ok body' = Except.ok (Stmt.mapSpansAll id body')
      rw [Stmt.mapSpansAll_id]
  | error hmatches => cases hwhole
  | cut hcut hdeep => exact .inr ⟨_, rfl, hdeep⟩

end ScriptHost
