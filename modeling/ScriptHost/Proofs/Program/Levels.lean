import ScriptHost.Program.Tree

/-!
How far down a tree goes. A path steps from a statement or an expression to one directly within it.
The part on the left is what was read before the operator, suffix or sign that makes the construct;
the other parts are read within the construct. A tree is bounded if the steps to parts within use up
no more levels than its depth has, and if no path has more than a given number of steps to the left.
-/

namespace ScriptHost

/-- A statement or an expression. -/
inductive Tree
  | stmt (s : Stmt)
  | expr (e : Expr)

namespace Tree

/-- The part on the left, in the constructs that have one. -/
def leftPart? : Tree → Option Expr
  | .expr (.binary _ _ e _) | .expr (.logical _ _ e _) | .expr (.assign _ e _)
  | .expr (.call _ e _) | .expr (.member _ e _) => some e
  | _ => none

/-- The parts that are read within a construct. -/
def innerParts : Tree → List Tree
  | .expr (.binary _ _ _ e) | .expr (.logical _ _ _ e) | .expr (.assign _ _ e)
  | .expr (.unary _ _ e) | .stmt (.expression _ e) => [.expr e]
  | .expr (.call _ _ arguments) => arguments.map .expr
  | .expr (.object _ entries) => entries.map fun entry => .expr entry.value
  | .expr (.function _ code) | .stmt (.function _ code) => code.body.map .stmt
  | .stmt (.var _ _ value) | .stmt (.return _ value) => value.toList.map .expr
  | .stmt (.block _ body) => body.map .stmt
  | .stmt (.conditional _ condition thenBranch elseBranch) =>
    .expr condition :: .stmt thenBranch :: elseBranch.toList.map .stmt
  | .stmt (.while _ condition body) => [.expr condition, .stmt body]
  | .expr (.literal _ _) | .expr (.variable _ _) | .expr (.this _) | .expr (.member _ _ _)
  | .stmt (.empty _) => []

/-- A path down a tree to a tree within it, with its levels and how many of its steps go left. -/
inductive Path : Tree → Tree → Nat → Nat → Prop
  | here (t : Tree) : Path t t 1 0
  | left {t u : Tree} {e : Expr} {levels lefts : Nat} (hpart : t.leftPart? = some e)
      (hrest : Path (.expr e) u levels lefts) : Path t u (levels + 1) (lefts + 1)
  | inner {t u v : Tree} {levels lefts : Nat} (hpart : v ∈ t.innerParts)
      (hrest : Path v u levels lefts) : Path t u (levels + 1) lefts

/-- No path has more levels than the depth and its steps to the left together, nor more such steps
than so many. -/
def Bounded (depth most : Nat) (t : Tree) : Prop :=
  ∀ (u : Tree) (levels lefts : Nat), t.Path u levels lefts →
    levels ≤ depth + lefts ∧ lefts ≤ most

variable {t : Tree} {depth depth' most most' : Nat}

theorem Bounded.mono (h : t.Bounded depth most) (hdepth : depth ≤ depth') (hmost : most ≤ most') :
    t.Bounded depth' most' := by
  intro u levels lefts hpath
  obtain ⟨hlevels, hlefts⟩ := h u levels lefts hpath
  constructor
  · omega
  · omega

theorem Bounded.depth_pos (h : t.Bounded depth most) : 0 < depth := by
  obtain ⟨hlevels, -⟩ := h t 1 0 (.here t)
  omega

/-- The part on the left may be as deep as the whole, the others less deep by one level. -/
theorem Bounded.of_left {e : Expr} (hpart : t.leftPart? = some e)
    (he : (expr e).Bounded (depth + 1) most)
    (hinner : ∀ u ∈ t.innerParts, u.Bounded depth (most + 1)) :
    t.Bounded (depth + 1) (most + 1) := by
  intro u levels lefts hpath
  cases hpath with
  | here => omega
  | left hpart' hrest =>
      obtain rfl := Option.some.inj (hpart.symm.trans hpart')
      obtain ⟨hlevels, hlefts⟩ := he u _ _ hrest
      omega
  | inner hpart' hrest =>
      obtain ⟨hlevels, hlefts⟩ := hinner _ hpart' u _ _ hrest
      omega

theorem Bounded.of_inner (hpart : t.leftPart? = none)
    (hinner : ∀ u ∈ t.innerParts, u.Bounded depth most) : t.Bounded (depth + 1) most := by
  intro u levels lefts hpath
  cases hpath with
  | here => omega
  | left hpart' hrest =>
      rw [hpart] at hpart'
      cases hpart'
  | inner hpart' hrest =>
      obtain ⟨hlevels, hlefts⟩ := hinner _ hpart' u _ _ hrest
      omega

@[simp] theorem leftPart?_join (op : Operator) (left right : Expr) :
    (expr (op.join left right)).leftPart? = some left := by
  cases op <;> rfl

@[simp] theorem innerParts_join (op : Operator) (left right : Expr) :
    (expr (op.join left right)).innerParts = [expr right] := by
  cases op <;> rfl

end Tree

end ScriptHost
