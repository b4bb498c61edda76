import ScriptHost.Proofs.Program.RoundTrip

/-!
How operators group names. The levels of operators are read one inside the other, each from left to
right, which is one rule for the tree as a whole: what stands left of an operator binds at least as
tightly as it does, and what stands right of it binds more tightly.
-/

namespace ScriptHost

/-- How tightly an operator binds. -/
def Operator.tightness : Operator → Nat
  | .logical .or => 0
  | .logical .and => 1
  | .binary .equal | .binary .notEqual | .binary .strictEqual | .binary .strictNotEqual => 2
  | .binary .less | .binary .lessEqual | .binary .greater | .binary .greaterEqual => 3
  | .binary .add | .binary .sub => 4
  | .binary .mul | .binary .div | .binary .mod => 5

/-- The expression is made of names and operators between them. Read in order they are this first
name and each of these operators with the name behind it; and at each operator those of the left
operand bind at least as tightly and those of the right operand more tightly. -/
inductive Expr.Groups : Expr → String → List (Operator × String) → Prop
  | name (span : Span) (text : String) : Groups (.variable span text) text []
  | join {left right : Expr} {first second : String} {op : Operator}
      {before after : List (Operator × String)} (hleft : Groups left first before)
      (hright : Groups right second after) (hloose : ∀ p ∈ before, op.tightness ≤ p.1.tightness)
      (htight : ∀ p ∈ after, op.tightness < p.1.tightness) :
      Groups (op.join left right) first (before ++ (op, second) :: after)

/-- The words of operators with a name behind each. -/
def operationWords (rest : List (Operator × String)) : List Word :=
  rest.flatMap fun p => [.sign p.1.kind, .name p.2]

@[simp] theorem operationWords_cons (p : Operator × String) (rest : List (Operator × String)) :
    operationWords (p :: rest) = .sign p.1.kind :: .name p.2 :: operationWords rest := rfl

@[simp] theorem operationWords_append (front back : List (Operator × String)) :
    operationWords (front ++ back) = operationWords front ++ operationWords back :=
  List.flatMap_append

namespace Expr.Groups

variable {e other : Expr} {first : String} {rest : List (Operator × String)}

theorem listing (h : e.Groups first rest) :
    e.listing = .name first :: operationWords rest := by
  induction h with
  | name => rfl
  | join _ _ _ _ ihleft ihright =>
      rw [Operator.listing_join, ihleft, ihright]
      simp

/-- Of two ways to split a row at an operator the later one is no later. -/
theorem eq_nil_of_split {op op' : Operator} {second second' : String}
    {after after' between : List (Operator × String)}
    (hsplit : (op, second) :: after = between ++ (op', second') :: after')
    (htight : ∀ p ∈ after, op.tightness < p.1.tightness)
    (hloose : ∀ p ∈ between, op'.tightness ≤ p.1.tightness) : between = [] := by
  cases between with
  | nil => rfl
  | cons p between =>
      obtain ⟨rfl, rfl⟩ := List.cons.inj hsplit
      have hlt := htight (op', second') (by simp)
      have hle := hloose (op, second) List.mem_cons_self
      exact absurd hlt (Nat.not_lt.mpr hle)

theorem split_unique {op op' : Operator} {second second' : String}
    {before after before' after' : List (Operator × String)}
    (hsplit : before ++ (op, second) :: after = before' ++ (op', second') :: after')
    (hloose : ∀ p ∈ before, op.tightness ≤ p.1.tightness)
    (htight : ∀ p ∈ after, op.tightness < p.1.tightness)
    (hloose' : ∀ p ∈ before', op'.tightness ≤ p.1.tightness)
    (htight' : ∀ p ∈ after', op'.tightness < p.1.tightness) :
    before = before' ∧ op = op' ∧ second = second' ∧ after = after' := by
  have hnone : ∃ between, before' = before ++ between ∧ between = [] ∧
      (op, second) :: after = between ++ (op', second') :: after' := by
    rcases List.append_eq_append_iff.mp hsplit with ⟨between, rfl, hrest⟩ | ⟨between, rfl, hrest⟩
    · refine ⟨between, rfl, eq_nil_of_split hrest htight fun p hp => ?_, hrest⟩
      exact hloose' p (List.mem_append_right _ hp)
    · obtain rfl := eq_nil_of_split hrest htight' fun p hp => hloose p (List.mem_append_right _ hp)
      exact ⟨[], by simp, rfl, hrest.symm⟩
  obtain ⟨between, rfl, rfl, hrest⟩ := hnone
  cases hrest
  simp

theorem bare_join {left right left' right' : Expr} (op : Operator) (hleft : left'.bare = left.bare)
    (hright : right'.bare = right.bare) :
    (op.join left' right').bare = (op.join left right).bare := by
  cases op <;> simp [Operator.join, Expr.mapSpans, hleft, hright, Span.none]

/-- Names and operators in a row are grouped in one way only. -/
theorem bare_eq (h : e.Groups first rest) (h' : other.Groups first rest) :
    other.bare = e.bare := by
  induction h generalizing other with
  | name span text =>
      generalize hrest : [] = rest at h'
      cases h' with
      | name => rfl
      | join => simp at hrest
  | @join left right first second op before after _ _ hloose htight ihleft ihright =>
      generalize hrest : before ++ (op, second) :: after = rest at h'
      cases h' with
      | name => simp at hrest
      | join hleft' hright' hloose' htight' =>
          obtain ⟨rfl, rfl, rfl, rfl⟩ := split_unique hrest hloose htight hloose' htight'
          exact bare_join _ (ihleft hleft') (ihright hright')

end Expr.Groups

section

variable {outer tighter groups : List (List (TokenKind × Operator))}
  {operators : List (TokenKind × Operator)} {inside : Bool} {next : TokenKind}
  {used : List Token} {rest : List (Operator × String)} {first : String}

/-- The levels are those of the tightness of their operators. -/
theorem lookup_kind (h : operatorLevels = outer ++ operators :: tighter) (op : Operator) :
    operators.lookup op.kind = if op.tightness = outer.length then some op else none := by
  have hall : ∀ i : Fin operatorLevels.length, (operatorLevels.get i).lookup op.kind =
      if op.tightness = i then some op else none := by
    cases op with
    | binary op => cases op <;> decide
    | logical op => cases op <;> decide
  have hlt : outer.length < operatorLevels.length := by simp [h]
  have hget : operatorLevels.get ⟨outer.length, hlt⟩ = operators := by simp [h]
  rw [← hget]
  exact hall ⟨outer.length, hlt⟩

theorem ends_of_tightness_lt (h : operatorLevels = outer ++ groups) {op : Operator}
    (hop : op.tightness < outer.length) : Ends groups op.kind := by
  have hmark : op.kind ≠ .leftParen ∧ op.kind ≠ .dot := by
    cases op with
    | binary op => cases op <;> decide
    | logical op => cases op <;> decide
  refine ⟨hmark.1, hmark.2, ?_⟩
  intro operators hmem
  obtain ⟨skipped, others, rfl⟩ := List.append_of_mem hmem
  rw [← List.append_assoc] at h
  rw [lookup_kind h, if_neg]
  rw [List.length_append]
  omega

theorem leading_of_words (h : List.Forall₂ Token.Says used (operationWords rest)) :
    leading used next = (rest.head?.map fun p => p.1.kind).getD next := by
  cases rest with
  | nil =>
      obtain rfl := eq_nil_of_says_nil h
      rfl
  | cons p rest =>
      obtain ⟨sign, others, rfl, hsign, -⟩ := exists_of_says_sign h
      exact hsign

/-- A row of operators up to the first of the loosest ones. -/
theorem exists_split {least : Nat} (h : ∀ p ∈ rest, least ≤ p.1.tightness) :
    ∃ front back, rest = front ++ back ∧ (∀ p ∈ front, least < p.1.tightness) ∧
      ∀ p ∈ back.head?, p.1.tightness = least := by
  induction rest with
  | nil => exact ⟨[], [], rfl, by simp, by simp⟩
  | cons p rest ih =>
      obtain ⟨hp, hrest⟩ := List.forall_mem_cons.mp h
      by_cases heq : p.1.tightness = least
      · refine ⟨[], p :: rest, rfl, by simp, ?_⟩
        rintro _ ⟨⟩
        exact heq
      · obtain ⟨front, back, rfl, hfront, hback⟩ := ih hrest
        refine ⟨p :: front, back, rfl, ?_, hback⟩
        exact List.forall_mem_cons.mpr ⟨Nat.lt_of_le_of_ne hp (Ne.symm heq), hfront⟩

/-- Names with operators of these levels between them are expressions that group them, where there
is room for one level of nesting for each operator. -/
def Grouping (inside : Bool) (least : Nat) (groups : List (List (TokenKind × Operator))) : Prop :=
  ∀ {room : Nat} {next : TokenKind} {used : List Token} {first : String}
    {rest : List (Operator × String)}, Ends groups next → rest.length ≤ room →
    (∀ p ∈ rest, least ≤ p.1.tightness) →
    List.Forall₂ Token.Says used (.name first :: operationWords rest) →
    ∃ e, Derives room inside next used (.level groups e) ∧ e.Groups first rest

/-- The level above reads a name and what is tighter up to the first operator of its own. -/
theorem Grouping.exists_operand (htighter : Grouping inside (outer.length + 1) tighter)
    (hlevels : operatorLevels = outer ++ operators :: tighter) {room : Nat}
    (hnext : Ends tighter next) (hroom : rest.length ≤ room)
    (hleast : ∀ p ∈ rest, outer.length ≤ p.1.tightness)
    (hwords : List.Forall₂ Token.Says used (.name first :: operationWords rest)) :
    ∃ front back chunk chain e, rest = front ++ back ∧ used = chunk ++ chain ∧
      (∀ p ∈ front, outer.length < p.1.tightness) ∧
      (∀ p ∈ back.head?, p.1.tightness = outer.length) ∧
      List.Forall₂ Token.Says chain (operationWords back) ∧
      Derives room inside (leading chain next) chunk (.level tighter e) ∧ e.Groups first front := by
  obtain ⟨front, back, rfl, hfront, hback⟩ := exists_split hleast
  rw [operationWords_append, ← List.cons_append] at hwords
  obtain ⟨chunk, chain, rfl, hchunk, hchain⟩ := exists_of_says_append hwords
  have hends : Ends tighter (leading chain next) := by
    rw [leading_of_words hchain]
    cases hhead : back.head? with
    | none => exact hnext
    | some p =>
        have hlooser : operatorLevels = (outer ++ [operators]) ++ tighter := by simp [hlevels]
        refine ends_of_tightness_lt hlooser ?_
        simp [hback p hhead]
  have hlength : front.length ≤ room :=
    Nat.le_trans (List.sublist_append_left front back).length_le hroom
  obtain ⟨e, he, hgroups⟩ := htighter hends hlength hfront hchunk
  exact ⟨front, back, chunk, chain, e, rfl, rfl, hfront, hback, hchain, he, hgroups⟩

/-- The operators of one level join what is tighter from left to right. -/
theorem Grouping.exists_operations (htighter : Grouping inside (outer.length + 1) tighter)
    (hlevels : operatorLevels = outer ++ operators :: tighter) {room : Nat} {left : Expr}
    {before : List (Operator × String)} (hnext : Ends (operators :: tighter) next)
    (hroom : rest.length ≤ room) (hleast : ∀ p ∈ rest, outer.length ≤ p.1.tightness)
    (hhead : ∀ p ∈ rest.head?, p.1.tightness = outer.length)
    (hwords : List.Forall₂ Token.Says used (operationWords rest)) (hleft : left.Groups first before)
    (hbefore : ∀ p ∈ before, outer.length ≤ p.1.tightness) :
    ∃ e, Derives room inside next used (.operations operators tighter left e) ∧
      e.Groups first (before ++ rest) := by
  obtain ⟨hparen, hdot, hnone⟩ := hnext
  obtain ⟨hoperators, hnone⟩ := List.forall_mem_cons.mp hnone
  induction hlength : rest.length using Nat.strong_induction_on
    generalizing room used left before rest with
  | _ length ih =>
      cases rest with
      | nil =>
          obtain rfl := eq_nil_of_says_nil hwords
          rw [List.append_nil]
          exact ⟨left, .operations_nil hoperators, hleft⟩
      | cons p rest =>
          obtain ⟨op, second⟩ := p
          have hop : op.tightness = outer.length := hhead _ rfl
          obtain ⟨sign, others, rfl, hsign, hothers⟩ := exists_of_says_sign hwords
          obtain ⟨room, rfl⟩ : ∃ less, room = less + 1 :=
            Nat.exists_eq_add_of_le' (Nat.le_trans (Nat.le_add_left ..) hroom)
          have hroom : rest.length ≤ room := Nat.le_of_succ_le_succ hroom
          obtain ⟨-, hrest⟩ := List.forall_mem_cons.mp hleast
          obtain ⟨front, back, chunk, chain, right, rfl, rfl, hfront, hback, hchain, hright,
            hgroups⟩ := htighter.exists_operand hlevels ⟨hparen, hdot, hnone⟩ hroom hrest hothers
          have hjoined : (op.join left right).Groups first (before ++ (op, second) :: front) :=
            .join hleft hgroups (fun p hp => hop ▸ hbefore p hp) fun p hp => hop ▸ hfront p hp
          have hshorter : back.length < length := by
            rw [← hlength, List.length_cons, List.length_append]
            omega
          have hleft : back.length ≤ room :=
            Nat.le_trans (List.sublist_append_right front back).length_le hroom
          obtain ⟨e, he, hwhole⟩ := ih back.length hshorter hleft
            (fun p hp => hrest p (List.mem_append_right _ hp)) hback hchain hjoined
            (by
              refine List.forall_mem_append.mpr ⟨hbefore, List.forall_mem_cons.mpr ⟨hop.ge, ?_⟩⟩
              exact fun p hp => Nat.le_of_lt (hfront p hp)) rfl
          refine ⟨e, ?_, ?_⟩
          · refine .operations_cons (by simp [hlevels]) ?_ hright he
            rw [hsign, lookup_kind hlevels, if_pos hop]
          · rwa [List.append_assoc, List.cons_append] at hwhole

theorem grouping_of_levels (inside : Bool) (hlevels : operatorLevels = outer ++ groups) :
    Grouping inside outer.length groups := by
  induction groups generalizing outer with
  | nil =>
      intro room next used first rest hnext hroom hleast hwords
      have hnone : rest = [] := by
        cases rest with
        | nil => rfl
        | cons p rest =>
            have hle := hleast p List.mem_cons_self
            have hlength : outer.length = 6 := by
              rw [← List.append_nil outer, ← hlevels]
              rfl
            have hlt : p.1.tightness < 6 := by
              cases p.1 with
              | binary op => cases op <;> decide
              | logical op => cases op <;> decide
            omega
      subst hnone
      obtain ⟨t, others, rfl, hkind, rfl, hothers⟩ := exists_of_says_name hwords
      obtain rfl := eq_nil_of_says_nil hothers
      exact ⟨_, (Derives.name hkind).level_of_primary hnext, .name t.span t.lexeme⟩
  | cons operators tighter ih =>
      intro room next used first rest hnext hroom hleast hwords
      have htighter : Grouping inside (outer.length + 1) tighter := by
        have hgrouping : Grouping inside (outer ++ [operators]).length tighter :=
          ih (by simp [hlevels])
        rwa [List.length_append, List.length_singleton] at hgrouping
      obtain ⟨hparen, hdot, hnone⟩ := hnext
      obtain ⟨front, back, chunk, chain, left, rfl, rfl, hfront, hback, hchain, hleft, hgroups⟩ :=
        htighter.exists_operand hlevels ⟨hparen, hdot, (List.forall_mem_cons.mp hnone).2⟩ hroom
          hleast hwords
      obtain ⟨e, he, hwhole⟩ := htighter.exists_operations hlevels ⟨hparen, hdot, hnone⟩
        (Nat.le_trans (List.sublist_append_right front back).length_le hroom)
        (fun p hp => hleast p (List.mem_append_right _ hp)) hback hchain hgroups
        (fun p hp => Nat.le_of_lt (hfront p hp))
      exact ⟨e, .level_cons hleft he, hwhole⟩

/-- Tokens of names with operators between them hold one statement, whose tree groups them, where
there is a level of nesting for each operator and for the statement and its expression. -/
theorem programWithin_of_row {limit : Nat} {ending : List Token} {last : Token}
    (hlimit : rest.length + 2 ≤ limit)
    (hwords : List.Forall₂ Token.Says used (.name first :: operationWords rest))
    (hending : Ended .endOfText ending) (hlast : last.kind = .endOfText) :
    ∃ e : Expr, programWithin limit (used ++ ending ++ [last]) = .ok [.expression e.span e] ∧
      e.Groups first rest := by
  obtain ⟨room, rfl⟩ := Nat.exists_eq_add_of_le' (Nat.le_trans (Nat.le_add_left ..) hlimit)
  have hends : EndsExpression (leading ending .endOfText) := by
    cases hending with
    | bare => decide
    | marked hmark =>
        rw [leading_cons, hmark]
        decide
  obtain ⟨e, he, hgroups⟩ := grouping_of_levels false (List.nil_append operatorLevels).symm hends.1
    (Nat.le_of_add_le_add_right hlimit) (fun _ _ => Nat.zero_le _) hwords
  have hstart : startsForm (leading (used ++ ending) .endOfText)
      (leading (used ++ ending).tail .endOfText) = false := by
    obtain ⟨t, others, rfl, hkind, -⟩ := exists_of_says_name hwords
    rw [List.cons_append, leading_cons, hkind]
    rfl
  have hstatement : Derives (room + 2) false .endOfText (used ++ ending)
      (.statement (.expression e.span e)) :=
    .statement (.expressionForm (he.expression_of_level hends) hending hstart)
  have hbody : Derives (room + 2) false .endOfText (used ++ ending ++ [])
      (.statements [.expression e.span e]) := .statements_cons hstatement .statements_nil
  rw [List.append_nil] at hbody
  exact ⟨e, programWithin_of_derives hlast hbody, hgroups⟩

/-- Tokens of names with operators between them hold one statement, whose tree groups them, unless
there are too many. -/
theorem programOfTokens_of_row {ending : List Token} {last : Token}
    (hwords : List.Forall₂ Token.Says used (.name first :: operationWords rest))
    (hending : Ended .endOfText ending) (hlast : last.kind = .endOfText) :
    (∃ e : Expr, programOfTokens (used ++ ending ++ [last]) = .ok [.expression e.span e] ∧
      e.Groups first rest) ∨
    maxTreeDepth < rest.length + 2 ∧ ∃ d : Diagnostic,
      programOfTokens (used ++ ending ++ [last]) = .error d ∧ d.IsTooDeep := by
  by_cases hlimit : rest.length + 2 ≤ maxTreeDepth
  · exact .inl (programWithin_of_row hlimit hwords hending hlast)
  · obtain ⟨e, hwhole, hgroups⟩ :=
      programWithin_of_row (Nat.le_max_right maxTreeDepth _) hwords hending hlast
    rcases programWithin_of_le (Nat.le_max_left ..) hwhole with hread | hdeep
    · exact .inl ⟨e, hread, hgroups⟩
    · exact .inr ⟨Nat.not_le.mp hlimit, hdeep⟩

end

/-- The text of an operator. -/
def Operator.spelling : Operator → String
  | .logical .or => "||"
  | .logical .and => "&&"
  | .binary .equal => "=="
  | .binary .notEqual => "!="
  | .binary .strictEqual => "==="
  | .binary .strictNotEqual => "!=="
  | .binary .less => "<"
  | .binary .lessEqual => "<="
  | .binary .greater => ">"
  | .binary .greaterEqual => ">="
  | .binary .add => "+"
  | .binary .sub => "-"
  | .binary .mul => "*"
  | .binary .div => "/"
  | .binary .mod => "%"

theorem spelled_operator (op : Operator) : (Word.sign op.kind).Spelled op.spelling.toList := by
  refine .mark ?_
  cases op with
  | binary op => cases op <;> decide
  | logical op => cases op <;> decide

/-- The text is a name: it is no reserved word, and its characters are those of a name. -/
def IsIdentifier (text : String) : Prop :=
  (∃ c cs, text.toList = c :: cs ∧ isNameStart c = true ∧ cs.all isNamePart = true) ∧
    Keyword.ofSpelling? text = none

theorem isNamePart_of_isNameStart {c : Char} (h : isNameStart c = true) : isNamePart c = true := by
  simp only [isNameStart, isNamePart, Bool.or_eq_true] at h ⊢
  refine h.imp_left (.imp_left fun halpha => ?_)
  have hcode : c.toNat < 0x80 := by
    rcases Bool.or_eq_true_iff.mp halpha with hupper | hlower
    · have hle : c.val ≤ 'Z'.val := (of_decide_eq_true hupper).2
      exact Nat.lt_of_le_of_lt (UInt32.le_iff_toNat_le.mp hle) (by decide)
    · have hle : c.val ≤ 'z'.val := of_decide_eq_true (Bool.and_eq_true_iff.mp hlower).2
      exact Nat.lt_of_le_of_lt (UInt32.le_iff_toNat_le.mp hle) (by decide)
  simp [isAlphanumeric_of_lt hcode, Char.isAlphanum, halpha]

theorem scansAlone_of_isIdentifier {text : String} (h : IsIdentifier text) :
    ScansAlone text.toList .identifier text.toList := by
  obtain ⟨⟨c, cs, htext, hstart, hparts⟩, hfree⟩ := h
  have hstop : ¬ IsStop c := fun hstop => by
    have := isNamePart_of_isNameStart hstart
    rw [hstop.isNamePart] at this
    cases this
  have hne : ∀ d, isNameStart d = false → c ≠ d := by
    rintro d hd rfl
    rw [hstart] at hd
    cases hd
  rw [htext]
  refine .intro (fun heq => hstop (.inr heq)) (fun offset => skipGap_eq_self_iff.mpr ⟨?_, ?_⟩) ?_
  · exact Bool.eq_false_iff.mpr fun hblank => hstop (.inl hblank)
  · rintro l rfl
    exact absurd rfl (hne '/' (by decide))
  · intro offset scratch
    have hword : wordKind (c :: cs) = .identifier := by
      rw [wordKind, ← htext, String.ofList_toList, hfree]
    unfold scanToken
    rw [if_neg (by simp [hne '"' (by decide), hne '\'' (by decide)]), scanPlain?, if_pos hstart,
      List.takeWhile_eq_self_iff.mpr (List.all_eq_true.mp hparts),
      List.dropWhile_eq_nil_iff.mpr (List.all_eq_true.mp hparts)]
    simp [hword, Scanned.verbatim]

/-- The pieces of a text of names with operators between them. -/
def rowPieces (first : String) (rest : List (Operator × String)) : List (List Char) :=
  first.toList :: rest.flatMap fun p => [p.1.spelling.toList, p.2.toList]

theorem spelled_rowPieces (first : String) (rest : List (Operator × String)) :
    List.Forall₂ Word.Spelled (.name first :: operationWords rest) (rowPieces first rest) := by
  refine .cons (.name first) ?_
  induction rest with
  | nil => exact .nil
  | cons p rest ih => exact .cons (spelled_operator p.1) (.cons (.name p.2) ih)

theorem sound_name {text : String} (h : IsIdentifier text) : (Word.name text).Sound := by
  intro piece hpiece
  cases hpiece
  exact ⟨⟨.identifier, text, ⟨0, 0⟩⟩, scansAlone_of_isIdentifier h, .name rfl⟩

theorem sound_row {first : String} {rest : List (Operator × String)}
    (h : ∀ name ∈ first :: rest.map Prod.snd, IsIdentifier name) :
    ∀ w ∈ Word.name first :: operationWords rest, w.Sound := by
  obtain ⟨hfirst, hrest⟩ := List.forall_mem_cons.mp h
  refine List.forall_mem_cons.mpr ⟨sound_name hfirst, ?_⟩
  induction rest with
  | nil => simp [operationWords]
  | cons p rest ih =>
      obtain ⟨hp, hrest⟩ := List.forall_mem_cons.mp hrest
      exact List.forall_mem_cons.mpr ⟨Word.sound_sign _, List.forall_mem_cons.mpr ⟨sound_name hp,
        ih (List.forall_mem_cons.mpr ⟨hfirst, hrest⟩) hrest⟩⟩

theorem exists_tokens_of_laid {first : String} {rest : List (Operator × String)}
    (hnames : ∀ name ∈ first :: rest.map Prod.snd, IsIdentifier name) {ending : List (List Char)}
    (hending : ending = [] ∨ ending = [[';']]) {text : List Char}
    (hlaid : Laid (rowPieces first rest ++ ending) text) (scratch : TextBuffer) :
    ∃ (used ended : List Token) (stop : Nat),
      (scanFrom text 0 scratch).1 = .ok (used ++ ended ++ [.ofEnd stop]) ∧
      List.Forall₂ Token.Says used (.name first :: operationWords rest) ∧
      Ended .endOfText ended := by
  obtain ⟨words, hsound, hspelled, hended⟩ : ∃ words : List Word, (∀ w ∈ words, w.Sound) ∧
      List.Forall₂ Word.Spelled words ending ∧
      ∀ ended, List.Forall₂ Token.Says ended words → Ended .endOfText ended := by
    rcases hending with rfl | rfl
    · refine ⟨[], by simp, .nil, fun ended h => ?_⟩
      rw [eq_nil_of_says_nil h]
      exact .bare (by decide)
    · refine ⟨[.sign .semicolon], by simpa using Word.sound_sign _,
        .cons (.mark (by decide)) .nil, fun ended h => ?_⟩
      obtain ⟨mark, others, rfl, hmark, hothers⟩ := exists_of_says_sign h
      rw [eq_nil_of_says_nil hothers]
      exact .marked hmark
  obtain ⟨tokens, hscans, hmeant⟩ := exists_tokens_of_spelled
    (List.forall_mem_append.mpr ⟨sound_row hnames, hsound⟩)
    (List.rel_append (spelled_rowPieces first rest) hspelled)
  obtain ⟨tokens', stop, hscan, hsame⟩ := hlaid.scanFrom hscans 0 scratch
  obtain ⟨used, ended, rfl, hused, hmarks⟩ :=
    exists_of_says_append (says_of_sameText hmeant hsame)
  exact ⟨used, ended, stop, hscan, hused, hended ended hmarks⟩

/-- However names and operators between them are laid out, with a semicolon behind them or without,
the text is read as one statement whose tree groups them, which is the only tree to do so, or it is
refused for being nested too deeply; and it is read if there are no more than 94 operators. -/
theorem groups_of_laid {first : String} {rest : List (Operator × String)}
    (hnames : ∀ name ∈ first :: rest.map Prod.snd, IsIdentifier name) {ending : List (List Char)}
    (hending : ending = [] ∨ ending = [[';']]) {text : String}
    (hlaid : Laid (rowPieces first rest ++ ending) text.toList) (scratch : TextBuffer) :
    (∀ body, (programOfSource text scratch).1 = .ok body →
      ∃ e : Expr, body = [.expression e.span e] ∧
        e.listing = .name first :: operationWords rest ∧ e.Groups first rest ∧
        ∀ other : Expr, other.Groups first rest → other.bare = e.bare) ∧
    (∀ d, (programOfSource text scratch).1 = .error d → d.IsTooDeep) ∧
    (rest.length ≤ 94 → ∃ body, (programOfSource text scratch).1 = .ok body) := by
  obtain ⟨used, ended, stop, hscan, hwords, hended⟩ :=
    exists_tokens_of_laid hnames hending hlaid scratch
  have hread : (programOfSource text scratch).1 =
      programOfTokens (used ++ ended ++ [.ofEnd stop]) := by
    change (scanFrom text.toList 0 scratch).1 >>= programOfTokens = _
    rw [hscan]
    rfl
  rw [hread]
  have hstop : (Token.ofEnd stop).kind = .endOfText := rfl
  rcases programOfTokens_of_row hwords hended hstop with
    ⟨e, hok, hgroups⟩ | ⟨hmany, d, herror, hdeep⟩
  · rw [hok]
    refine ⟨fun body hbody => ?_, fun d herror => (by cases herror), fun _ => ⟨_, rfl⟩⟩
    cases hbody
    exact ⟨e, rfl, hgroups.listing, hgroups, fun other hother => hgroups.bare_eq hother⟩
  · rw [herror]
    refine ⟨fun body hbody => (by cases hbody), fun other hother => ?_, fun hfew => ?_⟩
    · cases hother
      exact hdeep
    · have hmost : maxTreeDepth = 96 := rfl
      omega

theorem groups_of_laid_four :
    ∃ e : Expr, (programOfSource "a - b * c - d" .empty).1 = .ok [.expression e.span e] ∧
      e.Groups "a" [(.binary .sub, "b"), (.binary .mul, "c"), (.binary .sub, "d")] := by
  have hnames : ∀ name ∈ ["a", "b", "c", "d"], IsIdentifier name := by
    simp only [List.forall_mem_cons]
    refine ⟨⟨⟨'a', [], ?_⟩, rfl⟩, ⟨⟨'b', [], ?_⟩, rfl⟩, ⟨⟨'c', [], ?_⟩, rfl⟩, ⟨⟨'d', [], ?_⟩, rfl⟩,
      by simp⟩ <;> decide
  have hblank : IsSeparator [' '] := ⟨' ', [], rfl, rfl, .nil⟩
  have hlaid : Laid (rowPieces "a" [(.binary .sub, "b"), (.binary .mul, "c"),
      (.binary .sub, "d")] ++ []) "a - b * c - d".toList :=
    .cons .nil (.cons hblank (.cons hblank (.cons hblank (.cons hblank (.cons hblank
      (.cons hblank .nil))))))
  obtain ⟨hgroups, -, hread⟩ := groups_of_laid hnames (.inl rfl) hlaid .empty
  obtain ⟨body, hbody⟩ := hread (by decide)
  obtain ⟨e, rfl, -, he, -⟩ := hgroups body hbody
  exact ⟨e, hbody, he⟩

end ScriptHost
