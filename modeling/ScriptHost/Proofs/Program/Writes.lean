import ScriptHost.Proofs.Program.Attained
import ScriptHost.Proofs.Program.Word

/-!
Derivations where there is room enough. A primary expression, an operator between two of them or a
sign before one is an expression before any token that ends one.
-/

namespace ScriptHost

/-- With enough room the tokens are written for the construct. -/
def Writes (inside : Bool) (next : TokenKind) (used : List Token) (construct : Construct) : Prop :=
  ∃ least, ∀ room ≥ least, Derives room inside next used construct

namespace Writes

variable {inside : Bool} {next : TokenKind} {used : List Token} {construct : Construct}

/-- What some levels more make a derivation has enough room. -/
theorem add (levels : Nat)
    (h : ∃ least, ∀ room ≥ least, Derives (room + levels) inside next used construct) :
    Writes inside next used construct := by
  obtain ⟨least, h⟩ := h
  refine ⟨least + levels, fun room hroom => ?_⟩
  obtain ⟨room, rfl⟩ := Nat.exists_eq_add_of_le' (Nat.le_trans (Nat.le_add_left levels least) hroom)
  exact h room (Nat.le_of_add_le_add_right hroom)

end Writes

section

variable {room : Nat} {inside : Bool} {next : TokenKind} {used : List Token} {e : Expr}

/-- No sign before an operand begins a primary expression. -/
theorem Derives.unaryOp?_leading (h : Derives room inside next used (.primary e)) :
    unaryOp? (leading used next) = none := by
  cases h with
  | number ht | string ht | name ht | this ht => rw [leading_cons, ht]; rfl
  | constant ht hvalue =>
      rw [leading_cons, ht]
      cases ‹Keyword› <;> first | rfl | cases hvalue
  | functionExpression h =>
      obtain ⟨t, rest, rfl, ht⟩ := h.begins
      rw [leading_cons, of_decide_eq_true ht]
      rfl
  | parentheses hopening | object hopening =>
      rw [List.cons_append, leading_cons, hopening]
      rfl

/-- An expression of some levels is one of more levels where none of their operators follows. -/
theorem Derives.level_append {groups : List (List (TokenKind × Operator))}
    (outer : List (List (TokenKind × Operator)))
    (h : Derives room inside next used (.level groups e))
    (hnext : ∀ operators ∈ outer, operators.lookup next = none) :
    Derives room inside next used (.level (outer ++ groups) e) := by
  induction outer with
  | nil => exact h
  | cons operators outer ih =>
      obtain ⟨hfirst, hnext⟩ := List.forall_mem_cons.mp hnext
      rw [← List.append_nil used]
      exact .level_cons (ih hnext) (.operations_nil hfirst)

theorem Derives.level_of_primary {groups : List (List (TokenKind × Operator))}
    (h : Derives room inside next used (.primary e)) (hnext : Ends groups next) :
    Derives room inside next used (.level groups e) := by
  obtain ⟨hparen, hdot, hnone⟩ := hnext
  have hsuffixed : Derives room inside next (used ++ []) (.suffixed e) :=
    .suffixed h (.suffixes_nil hparen hdot)
  rw [List.append_nil] at hsuffixed
  have hlevel := (Derives.level_nil (.unary_none hsuffixed h.unaryOp?_leading)).level_append groups
    hnone
  rw [List.append_nil] at hlevel
  exact hlevel

/-- The kinds that end an expression whatever it is. -/
def EndsExpression (next : TokenKind) : Prop := Ends operatorLevels next ∧ next ≠ .assign

theorem Derives.expression_of_level (h : Derives room inside next used (.level operatorLevels e))
    (hnext : EndsExpression next) : Derives (room + 1) inside next used (.expression e) :=
  .expression (.assignment h hnext.2)

theorem Derives.expression_of_primary (h : Derives room inside next used (.primary e))
    (hnext : EndsExpression next) : Derives (room + 1) inside next used (.expression e) :=
  (h.level_of_primary hnext.1).expression_of_level hnext

instance (next : TokenKind) : Decidable (EndsExpression next) :=
  inferInstanceAs (Decidable (_ ∧ _))

/-- Every operator has its level, and ends the tighter ones. -/
theorem exists_operatorLevels (op : Operator) :
    ∃ outer operators tighter, operatorLevels = outer ++ operators :: tighter ∧
      operators.lookup op.kind = some op ∧ Ends tighter op.kind := by
  have hall : ∃ i : Fin operatorLevels.length, (operatorLevels.get i).lookup op.kind = some op ∧
      Ends (operatorLevels.drop (i + 1)) op.kind := by
    cases op with
    | binary op => cases op <;> decide
    | logical op => cases op <;> decide
  obtain ⟨i, hlookup, hends⟩ := hall
  refine ⟨operatorLevels.take i, operatorLevels.get i, operatorLevels.drop (i + 1), ?_, hlookup,
    hends⟩
  calc operatorLevels = operatorLevels.take i ++ operatorLevels.drop i :=
        (List.take_append_drop ..).symm
    _ = _ := congrArg _ (List.drop_eq_getElem_cons i.2)

/-- An operator between two primary expressions. -/
theorem Derives.join {op : Operator} {first second : List Token} {sign : Token} {left right : Expr}
    (hleft : Derives (room + 1) inside op.kind first (.primary left)) (hsign : sign.kind = op.kind)
    (hright : Derives room inside next second (.primary right)) (hnext : EndsExpression next) :
    Derives (room + 2) inside next (first ++ sign :: second)
      (.expression (op.join left right)) := by
  obtain ⟨outer, operators, tighter, hlevels, hlookup, hends⟩ := exists_operatorLevels op
  obtain ⟨hparen, hdot, hnone⟩ := hnext.1
  rw [hlevels, List.forall_mem_append, List.forall_mem_cons] at hnone
  obtain ⟨houter, hoperators, htighter⟩ := hnone
  rw [← hsign] at hleft hlookup hends
  have hchain : Derives (room + 1) inside next (sign :: second ++ [])
      (.operations operators tighter left (op.join left right)) :=
    .operations_cons (by simp [hlevels]) hlookup
      (hright.level_of_primary ⟨hparen, hdot, htighter⟩) (.operations_nil hoperators)
  rw [List.append_nil] at hchain
  have hlevel :=
    (Derives.level_cons (hleft.level_of_primary hends) hchain).level_append outer houter
  rw [← hlevels] at hlevel
  exact hlevel.expression_of_level hnext

theorem Derives.expression_of_suffixed (h : Derives room inside next used (.suffixed e))
    (hstart : unaryOp? (leading used next) = none) (hnext : EndsExpression next) :
    Derives (room + 1) inside next used (.expression e) := by
  have hlevel := (Derives.level_nil (.unary_none h hstart)).level_append operatorLevels hnext.1.2.2
  rw [List.append_nil] at hlevel
  exact hlevel.expression_of_level hnext

theorem Derives.expression_of_unary {op : UnaryOp} {sign : Token} (hsign : sign.kind = op.kind)
    (h : Derives room inside next used (.primary e)) (hnext : EndsExpression next) :
    Derives (room + 2) inside next (sign :: used)
      (.expression (.unary (sign.span.through e.span) op e)) := by
  have hoperand : Derives room inside next used (.level [] e) :=
    h.level_of_primary ⟨hnext.1.1, hnext.1.2.1, List.forall_mem_nil _⟩
  cases hoperand with
  | level_nil hoperand =>
      have hunary := Derives.unary (unaryOp?_of_kind hsign) (.operand hoperand)
      have hlevel := (Derives.level_nil hunary).level_append operatorLevels hnext.1.2.2
      rw [List.append_nil] at hlevel
      exact hlevel.expression_of_level hnext

end

theorem Writes.expression_of_primary {inside : Bool} {next : TokenKind} {used : List Token}
    {e : Expr} (h : Writes inside next used (.primary e)) (hnext : EndsExpression next) :
    Writes inside next used (.expression e) :=
  .add 1 (h.imp fun _ hleast room hroom => (hleast room hroom).expression_of_primary hnext)

end ScriptHost
