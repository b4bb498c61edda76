import ScriptHost.Proofs.Program.ParserTracking
import ScriptHost.Proofs.Token.Layout

/-!
Trees without their spans. Token lists that differ in their spans alone hold programs that are the
same without theirs, or are refused with the same message.
-/

namespace ScriptHost

/-- No place at all. -/
def Span.none (_ : Span) : Span := ⟨0, 0⟩

/-- The expression without its spans. -/
abbrev Expr.bare (e : Expr) : Expr := e.mapSpans Span.none

/-- The statement without its spans. -/
abbrev Stmt.bare (s : Stmt) : Stmt := s.mapSpans Span.none

/-- The statements without their spans. -/
abbrev Stmt.bareAll (body : List Stmt) : List Stmt := Stmt.mapSpansAll Span.none body

/-- The function without its spans. -/
abbrev FunctionCode.bare (code : FunctionCode) : FunctionCode := code.mapSpans Span.none

mutual

@[simp] theorem Expr.bare_bare : ∀ e : Expr, e.bare.bare = e.bare
  | .literal .. | .variable .. | .this _ => rfl
  | .binary _ _ left right | .logical _ _ left right | .assign _ left right => by
    simp [Expr.mapSpans, left.bare_bare, right.bare_bare, Span.none]
  | .unary _ _ operand | .member _ operand _ => by
    simp [Expr.mapSpans, operand.bare_bare, Span.none]
  | .call _ callee arguments => by
    simp [Expr.mapSpans, callee.bare_bare, Expr.bareAll_bareAll arguments, Span.none]
  | .object _ entries => by simp [Expr.mapSpans, Entry.bareAll_bareAll entries, Span.none]
  | .function _ code => by simp [Expr.mapSpans, code.bare_bare, Span.none]

@[simp] theorem Expr.bareAll_bareAll : ∀ es : List Expr,
    Expr.mapSpansAll Span.none (Expr.mapSpansAll Span.none es) = Expr.mapSpansAll Span.none es
  | [] => rfl
  | e :: rest => by simp [Expr.mapSpansAll, e.bare_bare, Expr.bareAll_bareAll rest]

@[simp] theorem Entry.bareAll_bareAll : ∀ entries : List Entry,
    Entry.mapSpansAll Span.none (Entry.mapSpansAll Span.none entries) =
      Entry.mapSpansAll Span.none entries
  | [] => rfl
  | ⟨_, value⟩ :: rest => by
    simp [Entry.mapSpansAll, Entry.mapSpans, value.bare_bare, Entry.bareAll_bareAll rest]

@[simp] theorem Expr.bareOption_bareOption : ∀ e : Option Expr,
    Expr.mapSpansOption Span.none (Expr.mapSpansOption Span.none e) =
      Expr.mapSpansOption Span.none e
  | none => rfl
  | some e => by simp [Expr.mapSpansOption, e.bare_bare]

@[simp] theorem Stmt.bare_bare : ∀ s : Stmt, s.bare.bare = s.bare
  | .var _ _ initial | .return _ initial => by
    simp [Stmt.mapSpans, Expr.bareOption_bareOption initial, Span.none]
  | .function _ code => by simp [Stmt.mapSpans, code.bare_bare, Span.none]
  | .expression _ value => by simp [Stmt.mapSpans, value.bare_bare, Span.none]
  | .block _ body => by simp [Stmt.mapSpans, Stmt.bareAll_bareAll body, Span.none]
  | .conditional _ condition thenBranch elseBranch => by
    simp [Stmt.mapSpans, condition.bare_bare, thenBranch.bare_bare,
      Stmt.bareOption_bareOption elseBranch, Span.none]
  | .while _ condition body => by
    simp [Stmt.mapSpans, condition.bare_bare, body.bare_bare, Span.none]
  | .empty _ => rfl

@[simp] theorem Stmt.bareAll_bareAll : ∀ body : List Stmt,
    Stmt.bareAll (Stmt.bareAll body) = Stmt.bareAll body
  | [] => rfl
  | s :: rest => by simp [Stmt.mapSpansAll, s.bare_bare, Stmt.bareAll_bareAll rest]

@[simp] theorem Stmt.bareOption_bareOption : ∀ s : Option Stmt,
    Stmt.mapSpansOption Span.none (Stmt.mapSpansOption Span.none s) =
      Stmt.mapSpansOption Span.none s
  | none => rfl
  | some s => by simp [Stmt.mapSpansOption, s.bare_bare]

@[simp] theorem FunctionCode.bare_bare : ∀ code : FunctionCode, code.bare.bare = code.bare
  | ⟨_, _, body⟩ => by simp [FunctionCode.mapSpans, Stmt.bareAll_bareAll body]

end

theorem Stmt.bareAll_append (body more : List Stmt) :
    Stmt.bareAll (body ++ more) = Stmt.bareAll body ++ Stmt.bareAll more := by
  induction body with
  | nil => rfl
  | cons s body ih => exact congrArg (s.bare :: ·) ih

/-- The view that sees no places. -/
def Respan.unplaced : Respan where
  view := Span.none
  atEnd := fun _ _ => True
  cut := False
  view_through := fun _ _ => rfl
  atEnd_missing := trivial

/-- The same program apart from its spans, or a refusal with the same message. -/
inductive ReadAlike :
    Except Diagnostic (List Stmt) → Except Diagnostic (List Stmt) → Prop
  | ok {body body' : List Stmt} (h : Stmt.bareAll body' = Stmt.bareAll body) :
      ReadAlike (.ok body) (.ok body')
  | error {d e : Diagnostic} (hkind : e.kind = d.kind) (hmessage : e.message = d.message) :
      ReadAlike (.error d) (.error e)

/-- The token without its place. -/
def Token.unplaced (t : Token) : Token := { t with span := t.span.none }

theorem Token.SameText.unplaced {t u : Token} (h : t.SameText u) : u.unplaced = t.unplaced := by
  obtain ⟨kind, lexeme, span⟩ := t
  obtain ⟨kind', lexeme', span'⟩ := u
  obtain ⟨rfl, rfl⟩ := h
  rfl

/-- Without their places tokens hold the program without its spans. -/
theorem agree_unplaced (limit : Nat) (tokens : List Token) :
    Respan.unplaced.Agree (programWithin limit tokens)
      (programWithin limit (tokens.map Token.unplaced)) := by
  refine agree_programWithin (.inl rfl) (List.forall₂_map_right_iff.mpr ?_)
  exact List.forall₂_same.mpr fun _ _ => ⟨rfl, rfl, .inl rfl⟩

/-- Token lists that differ in their spans alone hold the same program, or are refused alike. -/
theorem readAlike_of_sameText {limit : Nat} {tokens tokens' : List Token}
    (h : List.Forall₂ Token.SameText tokens tokens') :
    ReadAlike (programWithin limit tokens) (programWithin limit tokens') := by
  have hunplaced : tokens'.map Token.unplaced = tokens.map Token.unplaced := by
    induction h with
    | nil => rfl
    | cons ht _ ih => rw [List.map_cons, List.map_cons, ht.unplaced, ih]
  have hagree := agree_unplaced limit tokens
  have hagree' := agree_unplaced limit tokens'
  rw [hunplaced] at hagree'
  generalize programWithin limit (tokens.map Token.unplaced) = result at hagree hagree'
  generalize programWithin limit tokens = first at hagree ⊢
  generalize programWithin limit tokens' = second at hagree' ⊢
  cases hagree with
  | ok body =>
      generalize hbare : Except.ok (Stmt.mapSpansAll Respan.unplaced.view body) = bare at hagree'
      cases hagree' with
      | ok body' => exact .ok (Except.ok.inj hbare).symm
      | error => cases hbare
      | cut hcut => exact hcut.elim
  | error h =>
      rename_i d e
      generalize herror : Except.error e = bare at hagree'
      cases hagree' with
      | ok body' => cases herror
      | error h' =>
          cases herror
          exact .error (h'.kind.symm.trans h.kind) (h'.message.symm.trans h.message)
      | cut hcut => exact hcut.elim
  | cut hcut => exact hcut.elim

end ScriptHost
