import ScriptHost.Proofs.Program.Attained
import ScriptHost.Proofs.Program.InRange
import ScriptHost.Proofs.Program.ParserTracking

/-!
What the limit on nesting says of accepted programs. A path has at most as many levels as the limit
and its steps to the left together, because the room for a chain of operators or suffixes does not
depend on how deep its left operand is. There are texts with as many levels, and a text whose tree
would go down further is refused for its nesting.
-/

namespace ScriptHost

/-- What cannot be read within a limit because its tree is too deep is refused for that. -/
theorem isTooDeep_of_not_bounded {limit other : Nat} {tokens : List Token} {body : List Stmt}
    {s : Stmt} (h : programWithin other tokens = .ok body) (hs : s ∈ body)
    (hdeep : ¬ (Tree.stmt s).Bounded limit (mostLefts (limit - 1))) :
    ∃ d : Diagnostic, programWithin limit tokens = .error d ∧ d.IsTooDeep := by
  by_cases hlimit : limit ≤ other
  · rcases programWithin_of_le hlimit h with hread | hrefused
    · exact absurd (bounded_of_programWithin hread s hs) hdeep
    · exact hrefused
  · have hother := bounded_of_programWithin h s hs
    exact absurd (hother.mono (by omega) (mostLefts_mono (by omega))) hdeep

/-- A path in an accepted text has at most as many levels as the limit and its steps to the left, of
which there are at most 31255. A text that would hold any other path is refused for its nesting. For
each number of steps to the left, some accepted text holds a path that has just as many levels. -/
theorem levels_bounded (source : String) (scratch : TextBuffer) :
    (∀ body : List Stmt, (programOfSource source scratch).1 = .ok body →
      ∀ s ∈ body, ∀ (u : Tree) (levels lefts : Nat), (Tree.stmt s).Path u levels lefts →
        levels ≤ maxTreeDepth + lefts ∧ lefts ≤ 31255) ∧
    (∀ (tokens : List Token) (limit : Nat) (body : List Stmt),
      (tokenize source scratch).1 = .ok tokens → programWithin limit tokens = .ok body →
      ∀ s ∈ body, ∀ (u : Tree) (levels lefts : Nat), (Tree.stmt s).Path u levels lefts →
        maxTreeDepth + lefts < levels ∨ 31255 < lefts →
        ∃ span : Span, (programOfSource source scratch).1 =
          .error ⟨.parser, "expression nested too deeply", some span⟩) ∧
    ∀ lefts ≤ 31255, ∃ (deepest : String) (s : Stmt) (span : Span) (name : String),
      (programOfSource deepest .empty).1 = .ok [s] ∧
      (Tree.stmt s).Path (.expr (.variable span name)) (maxTreeDepth + lefts) lefts := by
  have hmost : mostLefts (maxTreeDepth - 1) = 31255 := by decide
  have hprogram : (programOfSource source scratch).1 =
      (tokenize source scratch).1 >>= programOfTokens := rfl
  rw [hprogram, ← hmost]
  refine ⟨?_, ?_, ?_⟩
  · intro body hbody s hs u levels lefts hpath
    cases htokens : (tokenize source scratch).1 with
    | error d =>
        rw [htokens] at hbody
        cases hbody
    | ok tokens =>
        rw [htokens] at hbody
        exact bounded_of_programWithin hbody s hs u levels lefts hpath
  · intro tokens limit body htokens hbody s hs u levels lefts hpath hdeep
    have hnot : ¬ (Tree.stmt s).Bounded maxTreeDepth (mostLefts (maxTreeDepth - 1)) := by
      intro hbounded
      obtain ⟨hlevels, hlefts⟩ := hbounded u levels lefts hpath
      omega
    obtain ⟨d, hrefused, hkind, hmessage⟩ := isTooDeep_of_not_bounded hbody hs hnot
    obtain ⟨-, t, -, hspan⟩ := refused_of_programWithin (exists_end_of_tokenize htokens) hrefused
    refine ⟨t.span, ?_⟩
    rw [htokens]
    change programWithin maxTreeDepth tokens = _
    rw [hrefused, ← hkind, ← hmessage, ← hspan]
  · intro lefts hlefts
    obtain ⟨deepest, s, hbody, span, name, hpath⟩ := exists_source_of_lefts hlefts
    exact ⟨deepest, s, span, name, hbody, hpath⟩

/-- Down to the left as far as there is a part on the left or one operand: where that ends, with the
levels passed and the steps to the left. -/
def Expr.spine : Expr → Expr × Nat × Nat
  | .binary _ _ e _ | .logical _ _ e _ | .assign _ e _ | .call _ e _ | .member _ e _ =>
    (e.spine.1, e.spine.2.1 + 1, e.spine.2.2 + 1)
  | .unary _ _ e => (e.spine.1, e.spine.2.1 + 1, e.spine.2.2)
  | e => (e, 1, 0)

theorem Expr.path_spine (e : Expr) :
    (Tree.expr e).Path (.expr e.spine.1) e.spine.2.1 e.spine.2.2 := by
  fun_induction Expr.spine e with
  | case1 _ _ _ _ ih => exact .left rfl ih
  | case2 _ _ _ _ ih => exact .left rfl ih
  | case3 _ _ _ ih => exact .left rfl ih
  | case4 _ _ _ ih => exact .left rfl ih
  | case5 _ _ _ ih => exact .left rfl ih
  | case6 _ _ _ ih => exact .inner List.mem_cons_self ih
  | case7 => exact .here _

/-- The statement is one expression that goes down to a name in so many levels and steps to the
left. -/
def spinesTo (levels lefts : Nat) : Except Diagnostic (List Stmt) → Bool
  | .ok [.expression _ e] =>
    match e.spine with
    | (.variable _ _, n, k) => n + 1 == levels && k == lefts
    | _ => false
  | _ => false

theorem reaches_of_spinesTo {levels lefts : Nat} {result : Except Diagnostic (List Stmt)}
    (h : spinesTo levels lefts result = true) :
    ∃ s : Stmt, result = .ok [s] ∧ s.Reaches levels lefts := by
  unfold spinesTo at h
  split at h
  · rename_i span e
    have hpath := e.path_spine
    split at h
    · rename_i place name n k hspine
      rw [hspine] at hpath
      simp only [Bool.and_eq_true, beq_iff_eq] at h
      obtain ⟨rfl, rfl⟩ := h
      exact ⟨_, rfl, place, name, .inner List.mem_cons_self hpath⟩
    · cases h
  · cases h

/-- A sum of which the left operand is a name under as many minus signs as there is room for. -/
def negatedSum : String := String.ofList (List.replicate 94 '-' ++ ['a', '+', 'a'])

theorem spinesTo_negatedSum : spinesTo 97 1 (programOfSource negatedSum .empty).1 = true := by
  decide +kernel

/-- The sum has one level beyond the limit, one minus sign more alone is refused, and some text has
the most levels there are. -/
theorem levels_bounded_negated :
    (∃ (s : Stmt) (u : Tree), (programOfSource negatedSum .empty).1 = .ok [s] ∧
      (Tree.stmt s).Path u 97 1 ∧ 97 ≤ maxTreeDepth + 1) ∧
    (∃ span : Span, (programOfSource (String.ofList (List.replicate 95 '-' ++ ['a'])) .empty).1 =
      .error ⟨.parser, "expression nested too deeply", some span⟩) ∧
    ∃ (source : String) (s : Stmt) (u : Tree), (programOfSource source .empty).1 = .ok [s] ∧
      (Tree.stmt s).Path u 31351 31255 := by
  refine ⟨?_, ?_, ?_⟩
  · obtain ⟨s, hbody, span, name, hpath⟩ := reaches_of_spinesTo spinesTo_negatedSum
    have hlevels := (levels_bounded negatedSum .empty).1 [s] hbody s List.mem_cons_self _ 97 1 hpath
    exact ⟨s, _, hbody, hpath, hlevels.1⟩
  · generalize hsource : String.ofList (List.replicate 95 '-' ++ ['a']) = source
    have hread : spinesTo 97 0 ((tokenize source .empty).1 >>= programWithin 97) = true := by
      rw [← hsource]
      decide +kernel
    obtain ⟨s, hbody, span, name, hpath⟩ := reaches_of_spinesTo hread
    cases htokens : (tokenize source .empty).1 with
    | error d =>
        rw [htokens] at hbody
        cases hbody
    | ok tokens =>
        rw [htokens] at hbody
        exact (levels_bounded source .empty).2.1 tokens 97 [s] htokens hbody s List.mem_cons_self _
          97 0 hpath (.inl (by decide))
  · obtain ⟨source, s, span, name, hbody, hpath⟩ :=
      (levels_bounded negatedSum .empty).2.2 31255 (by decide)
    exact ⟨source, s, _, hbody, hpath⟩

/-- An accepted text may hold a path to a leaf of more levels than the limit. -/
theorem levels_not_bounded :
    ∃ (source : String) (body : List Stmt) (s : Stmt) (u : Tree) (levels lefts : Nat),
      (programOfSource source .empty).1 = .ok body ∧ s ∈ body ∧
      (Tree.stmt s).Path u levels lefts ∧ u.leftPart? = none ∧ u.innerParts = [] ∧
      maxTreeDepth < levels := by
  obtain ⟨s, hbody, span, name, hpath⟩ := reaches_of_spinesTo spinesTo_negatedSum
  exact ⟨negatedSum, [s], s, _, 97, 1, hbody, List.mem_cons_self, hpath, rfl, rfl, by decide⟩

end ScriptHost
