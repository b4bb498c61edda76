import Mathlib.Data.List.Forall2
import ScriptHost.Program.Tree

/-!
Trees seen through a view of their spans. Two trees that are alike but for their spans are the same
tree to a view that sees all spans alike.
-/

namespace ScriptHost

mutual

/-- The tree with each span in it viewed. -/
def Expr.mapSpans (view : Span → Span) : Expr → Expr
  | .literal s value => .literal (view s) value
  | .variable s name => .variable (view s) name
  | .this s => .this (view s)
  | .binary s op left right => .binary (view s) op (left.mapSpans view) (right.mapSpans view)
  | .logical s op left right => .logical (view s) op (left.mapSpans view) (right.mapSpans view)
  | .unary s op operand => .unary (view s) op (operand.mapSpans view)
  | .assign s target value => .assign (view s) (target.mapSpans view) (value.mapSpans view)
  | .call s callee arguments =>
    .call (view s) (callee.mapSpans view) (Expr.mapSpansAll view arguments)
  | .member s owner property => .member (view s) (owner.mapSpans view) property
  | .object s entries => .object (view s) (Entry.mapSpansAll view entries)
  | .function s code => .function (view s) (code.mapSpans view)

def Expr.mapSpansAll (view : Span → Span) : List Expr → List Expr
  | [] => []
  | e :: rest => e.mapSpans view :: Expr.mapSpansAll view rest

def Entry.mapSpans (view : Span → Span) : Entry → Entry
  | ⟨key, value⟩ => ⟨key, value.mapSpans view⟩

def Entry.mapSpansAll (view : Span → Span) : List Entry → List Entry
  | [] => []
  | entry :: rest => entry.mapSpans view :: Entry.mapSpansAll view rest

def Expr.mapSpansOption (view : Span → Span) : Option Expr → Option Expr
  | none => none
  | some e => some (e.mapSpans view)

def Stmt.mapSpans (view : Span → Span) : Stmt → Stmt
  | .var s name initial => .var (view s) name (Expr.mapSpansOption view initial)
  | .function s code => .function (view s) (code.mapSpans view)
  | .expression s value => .expression (view s) (value.mapSpans view)
  | .block s body => .block (view s) (Stmt.mapSpansAll view body)
  | .conditional s condition thenBranch elseBranch =>
    .conditional (view s) (condition.mapSpans view) (thenBranch.mapSpans view)
      (Stmt.mapSpansOption view elseBranch)
  | .while s condition body => .while (view s) (condition.mapSpans view) (body.mapSpans view)
  | .return s value => .return (view s) (Expr.mapSpansOption view value)
  | .empty s => .empty (view s)

def Stmt.mapSpansAll (view : Span → Span) : List Stmt → List Stmt
  | [] => []
  | s :: rest => s.mapSpans view :: Stmt.mapSpansAll view rest

def Stmt.mapSpansOption (view : Span → Span) : Option Stmt → Option Stmt
  | none => none
  | some s => some (s.mapSpans view)

def FunctionCode.mapSpans (view : Span → Span) : FunctionCode → FunctionCode
  | ⟨name, parameters, body⟩ => ⟨name, parameters, Stmt.mapSpansAll view body⟩

end

mutual

theorem Expr.mapSpans_id : ∀ e : Expr, e.mapSpans id = e
  | .literal .. | .variable .. | .this .. => rfl
  | .binary _ _ left right | .logical _ _ left right | .assign _ left right => by
    simp [Expr.mapSpans, left.mapSpans_id, right.mapSpans_id]
  | .unary _ _ operand | .member _ operand _ => by simp [Expr.mapSpans, operand.mapSpans_id]
  | .call _ callee arguments => by
    simp [Expr.mapSpans, callee.mapSpans_id, Expr.mapSpansAll_id arguments]
  | .object _ entries => by simp [Expr.mapSpans, Entry.mapSpansAll_id entries]
  | .function _ code => by simp [Expr.mapSpans, code.mapSpans_id]

theorem Expr.mapSpansAll_id : ∀ es : List Expr, Expr.mapSpansAll id es = es
  | [] => rfl
  | e :: rest => by simp [Expr.mapSpansAll, e.mapSpans_id, Expr.mapSpansAll_id rest]

theorem Entry.mapSpans_id : ∀ entry : Entry, entry.mapSpans id = entry
  | ⟨_, value⟩ => by simp [Entry.mapSpans, value.mapSpans_id]

theorem Entry.mapSpansAll_id : ∀ entries : List Entry, Entry.mapSpansAll id entries = entries
  | [] => rfl
  | entry :: rest => by simp [Entry.mapSpansAll, entry.mapSpans_id, Entry.mapSpansAll_id rest]

theorem Expr.mapSpansOption_id : ∀ e : Option Expr, Expr.mapSpansOption id e = e
  | none => rfl
  | some e => by simp [Expr.mapSpansOption, e.mapSpans_id]

theorem Stmt.mapSpans_id : ∀ s : Stmt, s.mapSpans id = s
  | .var _ _ initial | .return _ initial => by
    simp [Stmt.mapSpans, Expr.mapSpansOption_id initial]
  | .function _ code => by simp [Stmt.mapSpans, code.mapSpans_id]
  | .expression _ value => by simp [Stmt.mapSpans, value.mapSpans_id]
  | .block _ body => by simp [Stmt.mapSpans, Stmt.mapSpansAll_id body]
  | .conditional _ condition thenBranch elseBranch => by
    simp [Stmt.mapSpans, condition.mapSpans_id, thenBranch.mapSpans_id,
      Stmt.mapSpansOption_id elseBranch]
  | .while _ condition body => by simp [Stmt.mapSpans, condition.mapSpans_id, body.mapSpans_id]
  | .empty _ => rfl

theorem Stmt.mapSpansAll_id : ∀ body : List Stmt, Stmt.mapSpansAll id body = body
  | [] => rfl
  | s :: rest => by simp [Stmt.mapSpansAll, s.mapSpans_id, Stmt.mapSpansAll_id rest]

theorem Stmt.mapSpansOption_id : ∀ s : Option Stmt, Stmt.mapSpansOption id s = s
  | none => rfl
  | some s => by simp [Stmt.mapSpansOption, s.mapSpans_id]

theorem FunctionCode.mapSpans_id : ∀ code : FunctionCode, code.mapSpans id = code
  | ⟨_, _, body⟩ => by simp [FunctionCode.mapSpans, Stmt.mapSpansAll_id body]

end

variable {view : Span → Span}

@[simp] theorem Expr.span_mapSpans (e : Expr) : (e.mapSpans view).span = view e.span := by
  cases e <;> rfl

@[simp] theorem Stmt.span_mapSpans (s : Stmt) : (s.mapSpans view).span = view s.span := by
  cases s <;> rfl

@[simp] theorem Expr.isAssignable_mapSpans (e : Expr) :
    (e.mapSpans view).isAssignable = e.isAssignable := by
  cases e <;> rfl

theorem Expr.mapSpansAll_of_forall₂ {es es' : List Expr}
    (h : List.Forall₂ (fun e e' => e' = Expr.mapSpans view e) es es') :
    es' = Expr.mapSpansAll view es := by
  induction h with
  | nil => rfl
  | cons hhead _ ih => rw [hhead, ih, Expr.mapSpansAll]

theorem Entry.mapSpansAll_of_forall₂ {entries entries' : List Entry}
    (h : List.Forall₂ (fun e e' => e' = Entry.mapSpans view e) entries entries') :
    entries' = Entry.mapSpansAll view entries := by
  induction h with
  | nil => rfl
  | cons hhead _ ih => rw [hhead, ih, Entry.mapSpansAll]

theorem Stmt.mapSpansAll_of_forall₂ {body body' : List Stmt}
    (h : List.Forall₂ (fun s s' => s' = Stmt.mapSpans view s) body body') :
    body' = Stmt.mapSpansAll view body := by
  induction h with
  | nil => rfl
  | cons hhead _ ih => rw [hhead, ih, Stmt.mapSpansAll]

theorem Expr.mapSpansOption_of_rel {e e' : Option Expr}
    (h : Option.Rel (fun e e' => e' = Expr.mapSpans view e) e e') :
    e' = Expr.mapSpansOption view e := by
  cases h with
  | none => rfl
  | some h => rw [h, Expr.mapSpansOption]

theorem Stmt.mapSpansOption_of_rel {s s' : Option Stmt}
    (h : Option.Rel (fun s s' => s' = Stmt.mapSpans view s) s s') :
    s' = Stmt.mapSpansOption view s := by
  cases h with
  | none => rfl
  | some h => rw [h, Stmt.mapSpansOption]

theorem Expr.span_mapSpansOption (e : Option Expr) (s : Span) :
    ((Expr.mapSpansOption view e).map Expr.span).getD (view s) = view ((e.map Expr.span).getD s) := by
  cases e with
  | none => rfl
  | some e => exact e.span_mapSpans

theorem Stmt.span_mapSpansOption (s : Option Stmt) (t : Span) :
    ((Stmt.mapSpansOption view s).map Stmt.span).getD (view t) = view ((s.map Stmt.span).getD t) := by
  cases s with
  | none => rfl
  | some s => exact s.span_mapSpans

theorem Operator.join_mapSpans
    (hview : ∀ a b : Span, view (a.through b) = (view a).through (view b)) (op : Operator)
    (left right : Expr) :
    op.join (left.mapSpans view) (right.mapSpans view) = (op.join left right).mapSpans view := by
  cases op <;> simp [join, Expr.mapSpans, hview]

end ScriptHost
