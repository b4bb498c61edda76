import ScriptHost.Proofs.Program.Passage
import ScriptHost.Proofs.Token.Extent

/-!
What the parsers read is in the grammar: where a parser succeeds, the tokens it took are written
for the tree it gives. One lemma for each production assembles the derivation from those of its
parts; the repetitions go by induction on their bounds, which are never used up before the text.
-/

namespace ScriptHost

open ScriptHost.Parser

namespace Deeper

/-- Whatever the parsers of the next level read is written for it. -/
structure Finds (deeper : Deeper) : Prop where
  statement : deeper.statement.Finds .statement
  expression : deeper.expression.Finds .expression
  operand : deeper.operand.Finds .operand

variable {deeper : Deeper} {room : Nat} {c d : Cursor}

theorem Finds.manyUntil (h : deeper.Finds) {closes : TokenKind → Bool} {bound : List Token}
    {body : List Stmt} (hroom : c.HasRoom room) (hend : c.HasEnd)
    (hbound : c.remaining.length ≤ bound.length)
    (hread : Parser.manyUntil closes deeper.statement bound c = .ok body d) :
    Passes room (.statements body) c d ∧ closes d.next.kind = true := by
  induction bound generalizing c body with
  | nil =>
      have := hend.pos
      rw [List.length_nil] at hbound
      omega
  | cons token bound ih =>
      have hitem := ok_of_peekKind hread
      split at hitem
      · rename_i hclose
        cases hitem
        exact ⟨⟨[], rfl, hend, .statements_nil⟩, hclose⟩
      · obtain ⟨s, middle, hfirst, hothers⟩ := ok_of_bind hitem
        obtain ⟨rest, last, hrest, hpure⟩ := ok_of_bind hothers
        cases hpure
        obtain ⟨used, hbefore, hmiddle, hs⟩ := h.statement hroom hend hfirst
        obtain ⟨t, others, rfl, -⟩ := hs.begins
        rw [hbefore, Cursor.length_remaining_before, List.length_cons, List.length_cons] at hbound
        subst hbefore
        obtain ⟨⟨more, rfl, hd, hbody⟩, hclose⟩ := ih (c := middle) hroom hmiddle (by omega) hrest
        rw [Cursor.inside_before, Cursor.kind_next_before] at hs
        exact ⟨⟨_, Cursor.before_before .., hd, .statements_cons hs hbody⟩, hclose⟩

theorem Finds.block (h : deeper.Finds) {r : List Stmt × Span} (hroom : c.HasRoom room)
    (hend : c.HasEnd) (hread : deeper.block c = .ok r d) : Passes room (.block r.1 r.2) c d := by
  obtain ⟨opening, inner, hfirst, hread₁⟩ := ok_of_bind hread
  obtain ⟨rfl, hinner, hopening⟩ := before_of_expect hfirst (by simp) hend
  obtain ⟨body, last, hused, hread₂⟩ := ok_of_bind (ok_of_tokensLeft hread₁)
  obtain ⟨⟨used, rfl, hlast, hbody⟩, -⟩ :=
    h.manyUntil (c := inner) hroom hinner (Nat.le_refl _) hused
  obtain ⟨closing, after, hend', hpure⟩ := ok_of_bind hread₂
  obtain ⟨rfl, hd, hclosing⟩ := before_of_expect hend' (by simp) hlast
  cases hpure
  rw [Cursor.kind_next_before, leading_cons, hclosing] at hbody
  exact ⟨opening :: used ++ [closing], by simp, hd, .block hopening hbody hclosing⟩

theorem Finds.inFunction (h : deeper.Finds) {r : List Stmt × Span} (hroom : c.HasRoom room)
    (hend : c.HasEnd) (hread : inFunction deeper.block c = .ok r d) :
    ∃ used, c = d.before used ∧ d.HasEnd ∧
      Derives room true d.next.kind used (.block r.1 r.2) := by
  unfold Parser.inFunction at hread
  cases hinner : deeper.block { c with functionDepth := c.functionDepth + 1 } with
  | error e left =>
      rw [hinner] at hread
      cases hread
  | ok r left =>
      rw [hinner] at hread
      cases hread
      obtain ⟨used, hbefore, hleft, hderives⟩ :=
        h.block (c := { c with functionDepth := c.functionDepth + 1 }) hroom hend hinner
      have hdepth : c.functionDepth + 1 = left.functionDepth :=
        congrArg Cursor.functionDepth hbefore
      have hinside : left.inside = true := by
        rw [Cursor.inside, ← hdepth]
        rfl
      rw [hinside] at hderives
      refine ⟨used, ?_, hleft, hderives⟩
      cases c
      cases left
      simp only [Cursor.before, Cursor.mk.injEq] at hbefore hdepth ⊢
      obtain ⟨rfl, rfl, rfl, -⟩ := hbefore
      exact ⟨rfl, rfl, rfl, by omega⟩

theorem Finds.function (h : deeper.Finds) {r : FunctionCode × Span} (hroom : c.HasRoom room)
    (hend : c.HasEnd) (hkind : c.next.kind = .keyword .function)
    (hread : deeper.function c = .ok r d) : Passes room (.function r.1 r.2) c d := by
  obtain ⟨first, c₁, hfirst, hread₁⟩ := ok_of_bind hread
  obtain ⟨rfl, hend₁, hfirst⟩ := before_of_advance hfirst (by simp [hkind]) hend
  obtain ⟨name, c₂, hfound, hread₂⟩ := ok_of_bind hread₁
  have hname : c₁ = c₂.before name.toList ∧ c₂.HasEnd ∧ ∀ t ∈ name, t.kind = .identifier := by
    rcases before_of_accept? hfound (by simp) hend₁ with
      ⟨t, rfl, hbefore, hend₂, ht⟩ | ⟨rfl, rfl, -⟩
    · exact ⟨hbefore, hend₂, by simpa using ht⟩
    · exact ⟨rfl, hend₁, by simp⟩
  obtain ⟨rfl, hend₂, hname⟩ := hname
  obtain ⟨opening, c₃, hopening', hread₃⟩ := ok_of_discard hread₂
  obtain ⟨rfl, hend₃, hopening⟩ := before_of_expect hopening' (by simp) hend₂
  obtain ⟨parameters, c₄, hparameters', hread₄⟩ := ok_of_bind hread₃
  obtain ⟨names, rfl, hend₄, hnames⟩ := parameters_of_separatedUntil hend₃ hparameters'
  obtain ⟨closing, c₅, hclosing', hread₅⟩ := ok_of_discard hread₄
  obtain ⟨rfl, hend₅, hclosing⟩ := before_of_expect hclosing' (by simp) hend₄
  obtain ⟨⟨body, span⟩, c₆, hbody', hpure⟩ := ok_of_bind hread₅
  obtain ⟨used, rfl, hd, hbody⟩ := h.inFunction (c := c₅) hroom hend₅ hbody'
  cases hpure
  exact ⟨first :: name.toList ++ opening :: names ++ closing :: used, by simp, hd,
    .function (hfirst.trans hkind) hname hopening hnames hclosing hbody⟩

theorem before_of_key {t : Token} (h : key c = .ok t d) (hend : c.HasEnd) :
    c = d.before [t] ∧ d.HasEnd ∧ t.kind.isKey = true := by
  have hread := ok_of_peekKind h
  generalize hnext : c.next.kind = kind at hread
  split at hread
  · obtain ⟨hbefore, hend, ht⟩ := before_of_advance hread (by simp [hnext]) hend
    exact ⟨hbefore, hend, by rw [ht, hnext]; rfl⟩
  · obtain ⟨hbefore, hend, ht⟩ := before_of_advance hread (by simp [hnext]) hend
    exact ⟨hbefore, hend, by rw [ht, hnext]; rfl⟩
  · obtain ⟨hbefore, hend, ht⟩ := before_of_expectProperty hread hend
    refine ⟨hbefore, hend, ?_⟩
    unfold TokenKind.isKey
    split
    · rfl
    · rfl
    · exact ht

theorem Finds.entries (h : deeper.Finds) {bound : List Token} {es : List Entry}
    (hroom : c.HasRoom room) (hend : c.HasEnd) (hbound : c.remaining.length ≤ bound.length)
    (hread : deeper.entries bound c = .ok es d) : Passes room (.entries es) c d := by
  induction bound generalizing c es with
  | nil =>
      have := hend.pos
      rw [List.length_nil] at hbound
      omega
  | cons token bound ih =>
      have hitem := ok_of_peekKind hread
      split at hitem
      · cases hitem
        exact ⟨[], rfl, hend, .entries_nil⟩
      · obtain ⟨key, c₁, hkey', hread₁⟩ := ok_of_bind hitem
        obtain ⟨rfl, hend₁, hkey⟩ := before_of_key hkey' hend
        obtain ⟨colon, c₂, hcolon', hread₂⟩ := ok_of_discard hread₁
        obtain ⟨rfl, hend₂, hcolon⟩ := before_of_expect hcolon' (by simp) hend₁
        obtain ⟨value, c₃, hvalue', hread₃⟩ := ok_of_bind hread₂
        obtain ⟨used, rfl, hend₃, hvalue⟩ := h.expression (c := c₂) hroom hend₂ hvalue'
        obtain ⟨found, c₄, hfound, hread₄⟩ := ok_of_bind hread₃
        rcases before_of_accept? hfound (by simp) hend₃ with
          ⟨comma, rfl, rfl, hend₄, hcomma⟩ | ⟨rfl, rfl, hcomma⟩
        · obtain ⟨es, c₅, hrest', hpure⟩ := ok_of_bind hread₄
          cases hpure
          simp only [Cursor.length_remaining_before, List.length_cons] at hbound
          obtain ⟨rest, rfl, hd, hrest⟩ := ih (c := c₄) hroom hend₄ (by omega) hrest'
          rw [Cursor.kind_next_before, leading_cons, hcomma] at hvalue
          exact ⟨key :: colon :: used ++ comma :: rest, by simp, hd,
            .entries_cons hkey hcolon hvalue hcomma hrest⟩
        · cases hread₄
          exact ⟨key :: colon :: used, by simp, hend₃, .entries_one hkey hcolon hvalue hcomma⟩

theorem Finds.primary (h : deeper.Finds) : deeper.primary.Finds .primary := by
  intro room c d e hroom hend hread
  have hchoice := ok_of_peekKind hread
  generalize hkind : c.next.kind = kind at hchoice
  have hadvance : ∀ {t : Token} {c₁ : Cursor}, advance c = .ok t c₁ → kind ≠ .endOfText →
      c = c₁.before [t] ∧ c₁.HasEnd ∧ t.kind = kind := by
    intro t c₁ ht hproper
    rw [← hkind]
    exact before_of_advance ht (hkind ▸ hproper) hend
  split at hchoice
  · obtain ⟨t, c₁, ht', hvalue⟩ := ok_of_bind hchoice
    obtain ⟨hbefore, hend₁, ht⟩ := hadvance ht' (by simp)
    cases hx : readFloat? t.lexeme.toList with
    | none =>
        rw [hx] at hvalue
        cases hvalue
    | some x =>
        rw [hx] at hvalue
        cases hvalue
        exact ⟨[t], hbefore, hend₁, .number ht hx⟩
  · obtain ⟨t, c₁, ht', hpure⟩ := ok_of_bind hchoice
    obtain ⟨hbefore, hend₁, ht⟩ := hadvance ht' (by simp)
    cases hpure
    exact ⟨[t], hbefore, hend₁, .string ht⟩
  · obtain ⟨t, c₁, ht', hpure⟩ := ok_of_bind hchoice
    obtain ⟨hbefore, hend₁, ht⟩ := hadvance ht' (by simp)
    cases hpure
    exact ⟨[t], hbefore, hend₁, .name ht⟩
  · obtain ⟨t, c₁, ht', hpure⟩ := ok_of_bind hchoice
    obtain ⟨hbefore, hend₁, ht⟩ := hadvance ht' (by simp)
    cases hpure
    exact ⟨[t], hbefore, hend₁, .this ht⟩
  · obtain ⟨⟨code, span⟩, c₁, hcode', hpure⟩ := ok_of_bind hchoice
    obtain ⟨used, hbefore, hend₁, hcode⟩ := h.function hroom hend hkind hcode'
    cases hpure
    exact ⟨used, hbefore, hend₁, .functionExpression hcode⟩
  · obtain ⟨opening, c₁, hopening', hread₁⟩ := ok_of_discard hchoice
    obtain ⟨rfl, hend₁, hopening⟩ := hadvance hopening' (by simp)
    obtain ⟨inner, c₂, hinner', hread₂⟩ := ok_of_bind hread₁
    obtain ⟨used, rfl, hend₂, hinner⟩ := h.expression (c := c₁) hroom hend₁ hinner'
    obtain ⟨closing, c₃, hclosing', hpure⟩ := ok_of_discard hread₂
    obtain ⟨rfl, hend₃, hclosing⟩ := before_of_expect hclosing' (by simp) hend₂
    cases hpure
    rw [Cursor.kind_next_before, leading_cons, hclosing] at hinner
    exact ⟨opening :: used ++ [closing], by simp, hend₃, .parentheses hopening hinner hclosing⟩
  · obtain ⟨opening, c₁, hopening', hread₁⟩ := ok_of_bind hchoice
    obtain ⟨rfl, hend₁, hopening⟩ := hadvance hopening' (by simp)
    obtain ⟨es, c₂, hentries', hread₂⟩ := ok_of_bind (ok_of_tokensLeft hread₁)
    obtain ⟨used, rfl, hend₂, hentries⟩ :=
      h.entries (c := c₁) hroom hend₁ (Nat.le_refl _) hentries'
    obtain ⟨closing, c₃, hclosing', hpure⟩ := ok_of_bind hread₂
    obtain ⟨rfl, hend₃, hclosing⟩ := before_of_expect hclosing' (by simp) hend₂
    cases hpure
    rw [Cursor.kind_next_before, leading_cons, hclosing] at hentries
    exact ⟨opening :: used ++ [closing], by simp, hend₃, .object hopening hentries hclosing⟩
  · rename_i word _ _
    cases hvalue : word.literal? with
    | none =>
        rw [hvalue] at hchoice
        exact absurd hchoice (refuseNext_ne_ok _ _ _ _)
    | some value =>
        rw [hvalue] at hchoice
        obtain ⟨t, c₁, ht', hpure⟩ := ok_of_bind hchoice
        obtain ⟨hbefore, hend₁, ht⟩ := hadvance ht' (by simp)
        cases hpure
        exact ⟨[t], hbefore, hend₁, .constant ht hvalue⟩
  · exact absurd hchoice (refuseNext_ne_ok _ _ _ _)

theorem Finds.items (h : deeper.Finds) {bound : List Token} {es : List Expr}
    (hroom : c.HasRoom room) (hend : c.HasEnd) (hbound : c.remaining.length ≤ bound.length)
    (hread : separated deeper.expression bound c = .ok es d) : Passes room (.items es) c d := by
  induction bound generalizing c es with
  | nil =>
      have := hend.pos
      rw [List.length_nil] at hbound
      omega
  | cons token bound ih =>
      obtain ⟨e, c₁, hfirst, hread₁⟩ := ok_of_bind hread
      obtain ⟨used, rfl, hend₁, he⟩ := h.expression hroom hend hfirst
      obtain ⟨found, c₂, hfound, hread₂⟩ := ok_of_bind hread₁
      rcases before_of_accept? hfound (by simp) hend₁ with
        ⟨comma, rfl, rfl, hend₂, hcomma⟩ | ⟨rfl, rfl, hnext⟩
      · obtain ⟨es, c₃, hrest, hpure⟩ := ok_of_bind hread₂
        cases hpure
        simp only [Cursor.length_remaining_before, List.length_cons] at hbound
        obtain ⟨rest, rfl, hd, hrest⟩ := ih (c := c₂) hroom hend₂ (by omega) hrest
        rw [Cursor.kind_next_before, leading_cons, hcomma] at he
        exact ⟨used ++ comma :: rest, by simp, hd, .items_cons he hcomma hrest⟩
      · cases hread₂
        exact ⟨used, rfl, hend₁, .items_one he hnext⟩

theorem Finds.arguments (h : deeper.Finds) {es : List Expr} (hroom : c.HasRoom room)
    (hend : c.HasEnd) (hread : separatedUntil .rightParen deeper.expression c = .ok es d) :
    Passes room (.arguments es) c d := by
  have hitems := ok_of_peekKind hread
  split at hitems
  · cases hitems
    exact ⟨[], rfl, hend, .arguments_nil⟩
  · obtain ⟨used, hbefore, hd, hes⟩ :=
      h.items hroom hend (Nat.le_refl _) (ok_of_tokensLeft hitems)
    exact ⟨used, hbefore, hd, .arguments hes⟩

/-- Each suffix enters a level, so the cursors agree only up to their levels. -/
theorem Finds.suffixes (h : deeper.Finds) {bound : List Token} {left e : Expr}
    (hroom : c.HasRoom room) (hend : c.HasEnd) (hbound : c.remaining.length ≤ bound.length)
    (hread : deeper.suffixes bound left c = .ok e d) :
    Passes room (.suffixes left e) (c.atDepth d.depth) d := by
  induction bound generalizing c room left with
  | nil =>
      have := hend.pos
      rw [List.length_nil] at hbound
      omega
  | cons token bound ih =>
      have hchoice := ok_of_peekKind hread
      generalize hkind : c.next.kind = kind at hchoice
      split at hchoice
      · obtain ⟨opening, c₁, hopening', hread₁⟩ := ok_of_discard hchoice
        obtain ⟨rfl, hend₁, hopening⟩ := before_of_advance hopening' (by simp [hkind]) hend
        obtain ⟨_, c₂, hdescend, hread₂⟩ := ok_of_bind hread₁
        obtain ⟨rest, rfl, hentered, hrest⟩ := entered_of_descend hdescend hroom
        obtain ⟨es, c₃, hes', hread₃⟩ := ok_of_bind hread₂
        obtain ⟨used, rfl, hend₃, hes⟩ := h.arguments hrest (hentered ▸ hend₁) hes'
        obtain ⟨closing, c₄, hclosing', hread₄⟩ := ok_of_bind hread₃
        obtain ⟨rfl, hend₄, hclosing⟩ := before_of_expect hclosing' (by simp) hend₃
        have hlength := congrArg (fun c => c.remaining.length) hentered
        simp only [Cursor.length_remaining_before, Cursor.length_remaining_atDepth,
          List.length_cons] at hlength hbound
        obtain ⟨chain, hc₄, hd, hchain⟩ := ih (c := c₄) hrest hend₄ (by omega) hread₄
        have hinside : c₄.inside = d.inside := by simpa using congrArg Cursor.inside hc₄
        rw [Cursor.kind_next_before, leading_cons, hclosing, Cursor.inside_before, hinside] at hes
        refine ⟨opening :: used ++ closing :: chain, ?_, hd,
          .suffixes_call (hopening.trans hkind) hes hclosing hchain⟩
        rw [Cursor.atDepth_before, ← c₁.atDepth_atDepth (c₁.depth + 1), ← hentered]
        simp [hc₄]
      · obtain ⟨sign, c₁, hsign', hread₁⟩ := ok_of_discard hchoice
        obtain ⟨rfl, hend₁, hsign⟩ := before_of_advance hsign' (by simp [hkind]) hend
        obtain ⟨_, c₂, hdescend, hread₂⟩ := ok_of_bind hread₁
        obtain ⟨rest, rfl, hentered, hrest⟩ := entered_of_descend hdescend hroom
        obtain ⟨name, c₃, hname', hread₃⟩ := ok_of_bind hread₂
        obtain ⟨rfl, hend₃, hname⟩ := before_of_expectProperty hname' (hentered ▸ hend₁)
        have hlength := congrArg (fun c => c.remaining.length) hentered
        simp only [Cursor.length_remaining_before, Cursor.length_remaining_atDepth,
          List.length_cons] at hlength hbound
        obtain ⟨chain, hc₃, hd, hchain⟩ := ih (c := c₃) hrest hend₃ (by omega) hread₃
        refine ⟨sign :: name :: chain, ?_, hd, .suffixes_member (hsign.trans hkind) hname hchain⟩
        rw [Cursor.atDepth_before, ← c₁.atDepth_atDepth (c₁.depth + 1), ← hentered]
        simp [hc₃]
      · cases hchoice
        exact ⟨[], rfl, hend, .suffixes_nil (hkind ▸ ‹_›) (hkind ▸ ‹_›)⟩

theorem Finds.suffixed (h : deeper.Finds) : deeper.suffixed.Finds .suffixed := by
  intro room c d e hroom hend hread
  obtain ⟨left, c₁, hleft', hread₁⟩ := ok_of_bind hread
  obtain ⟨used, rfl, hend₁, hleft⟩ := h.primary hroom hend hleft'
  obtain ⟨c₂, hchain', rfl⟩ := ok_of_restoringDepth hread₁
  obtain ⟨chain, hbefore, hd, hchain⟩ := Passes.restored
    (h.suffixes (c := c₁) hroom hend₁ (Nat.le_refl _) (ok_of_tokensLeft hchain'))
  rw [hbefore, Cursor.inside_before, Cursor.kind_next_before] at hleft
  exact ⟨used ++ chain, by rw [hbefore, Cursor.before_before]; rfl, hd, .suffixed hleft hchain⟩

theorem Finds.unary (h : deeper.Finds) : deeper.unary.Finds .unary := by
  intro room c d e hroom hend hread
  have hchoice := ok_of_peekKind hread
  cases hsign : unaryOp? c.next.kind with
  | none =>
      rw [hsign] at hchoice
      obtain ⟨used, rfl, hd, he⟩ := h.suffixed hroom hend hchoice
      rw [Cursor.kind_next_before] at hsign
      exact ⟨used, rfl, hd, .unary_none he hsign⟩
  | some op =>
      rw [hsign] at hchoice
      have hkind : c.next.kind ≠ .endOfText := by
        intro hkind
        rw [hkind] at hsign
        cases hsign
      obtain ⟨sign, c₁, hfirst, hread₁⟩ := ok_of_bind hchoice
      obtain ⟨rfl, hend₁, hfirst⟩ := before_of_advance hfirst hkind hend
      obtain ⟨operand, c₂, hoperand, hpure⟩ := ok_of_bind hread₁
      obtain ⟨used, rfl, hd, hused⟩ := h.operand (c := c₁) hroom hend₁ hoperand
      cases hpure
      exact ⟨sign :: used, by simp, hd, .unary (hfirst ▸ hsign) hused⟩

theorem finds_operations {operators : List (TokenKind × Operator)}
    {tighter : List (List (TokenKind × Operator))} {operand : Parser Expr}
    (hmem : operators ∈ operatorLevels) (h : operand.Finds (.level tighter)) {bound : List Token}
    {left e : Expr} (hroom : c.HasRoom room) (hend : c.HasEnd)
    (hbound : c.remaining.length ≤ bound.length)
    (hread : operations operators operand bound left c = .ok e d) :
    Passes room (.operations operators tighter left e) (c.atDepth d.depth) d := by
  induction bound generalizing c room left with
  | nil =>
      have := hend.pos
      rw [List.length_nil] at hbound
      omega
  | cons token bound ih =>
      have hchoice := ok_of_peekKind hread
      cases hsign : operators.lookup c.next.kind with
      | none =>
          rw [hsign] at hchoice
          cases hchoice
          exact ⟨[], rfl, hend, .operations_nil hsign⟩
      | some op =>
          rw [hsign] at hchoice
          have hkind := ne_endOfText_of_lookup hmem hsign
          obtain ⟨sign, c₁, hfirst, hread₁⟩ := ok_of_discard hchoice
          obtain ⟨rfl, hend₁, hfirst⟩ := before_of_advance hfirst hkind hend
          obtain ⟨_, c₂, hdescend, hread₂⟩ := ok_of_bind hread₁
          obtain ⟨rest, rfl, hentered, hrest⟩ := entered_of_descend hdescend hroom
          obtain ⟨right, c₃, hright', hread₃⟩ := ok_of_bind hread₂
          obtain ⟨used, rfl, hend₃, hright⟩ := h hrest (hentered ▸ hend₁) hright'
          have hlength := congrArg (fun c => c.remaining.length) hentered
          simp only [Cursor.length_remaining_before, Cursor.length_remaining_atDepth,
            List.length_cons] at hlength hbound
          obtain ⟨chain, hc₃, hd, hchain⟩ := ih (c := c₃) hrest hend₃ (by omega) hread₃
          have hinside : c₃.inside = d.inside := by simpa using congrArg Cursor.inside hc₃
          have hnext : c₃.next.kind = leading chain d.next.kind := by
            rw [← Cursor.kind_next_before, ← hc₃]
            rfl
          rw [hinside, hnext] at hright
          refine ⟨sign :: used ++ chain, ?_, hd,
            .operations_cons hmem (hfirst ▸ hsign) hright hchain⟩
          rw [Cursor.atDepth_before, ← c₁.atDepth_atDepth (c₁.depth + 1), ← hentered]
          simp [hc₃]

theorem Finds.level (h : deeper.Finds) {groups : List (List (TokenKind × Operator))}
    (hgroups : groups ⊆ operatorLevels) : (deeper.level groups).Finds (.level groups) := by
  induction groups with
  | nil =>
      intro room c d e hroom hend hread
      obtain ⟨used, hbefore, hd, he⟩ := h.unary hroom hend hread
      exact ⟨used, hbefore, hd, .level_nil he⟩
  | cons operators tighter ih =>
      obtain ⟨hmem, hgroups⟩ := List.cons_subset.mp hgroups
      intro room c d e hroom hend hread
      obtain ⟨left, c₁, hleft', hread₁⟩ := ok_of_bind hread
      obtain ⟨used, rfl, hend₁, hleft⟩ := ih hgroups hroom hend hleft'
      obtain ⟨c₂, hchain', rfl⟩ := ok_of_restoringDepth hread₁
      obtain ⟨chain, hbefore, hd, hchain⟩ := Passes.restored
        (finds_operations (c := c₁) hmem (ih hgroups) hroom hend₁ (Nat.le_refl _)
          (ok_of_tokensLeft hchain'))
      rw [hbefore, Cursor.inside_before, Cursor.kind_next_before] at hleft
      exact ⟨used ++ chain, by rw [hbefore, Cursor.before_before]; rfl, hd,
        .level_cons hleft hchain⟩

theorem Finds.assignment (h : deeper.Finds) : deeper.assignment.Finds .assignment := by
  intro room c d e hroom hend hread
  obtain ⟨target, c₁, htarget', hread₁⟩ := ok_of_bind hread
  obtain ⟨used, rfl, hend₁, htarget⟩ := h.level (List.Subset.refl _) hroom hend htarget'
  obtain ⟨found, c₂, hfound, hread₂⟩ := ok_of_bind hread₁
  rcases before_of_accept? hfound (by simp) hend₁ with
    ⟨sign, rfl, rfl, hend₂, hsign⟩ | ⟨rfl, rfl, hnext⟩
  · obtain ⟨value, c₃, hvalue', hread₃⟩ := ok_of_bind hread₂
    obtain ⟨more, rfl, hend₃, hvalue⟩ := h.expression (c := c₂) hroom hend₂ hvalue'
    split at hread₃
    · rename_i hassignable
      cases hread₃
      rw [Cursor.kind_next_before, leading_cons, hsign] at htarget
      exact ⟨used ++ sign :: more, by simp, hend₃,
        .assignment_sign htarget hsign hvalue hassignable⟩
    · cases hread₃
  · cases hread₂
    exact ⟨used, rfl, hend₁, .assignment htarget hnext⟩

theorem Finds.condition (h : deeper.Finds) {e : Expr} (hroom : c.HasRoom room) (hend : c.HasEnd)
    (hread : deeper.condition c = .ok e d) :
    ∃ opening used closing, c = d.before (opening :: used ++ [closing]) ∧ d.HasEnd ∧
      opening.kind = .leftParen ∧ closing.kind = .rightParen ∧
      Derives room d.inside .rightParen used (.expression e) := by
  obtain ⟨opening, c₁, hopening', hread₁⟩ := ok_of_discard hread
  obtain ⟨rfl, hend₁, hopening⟩ := before_of_expect hopening' (by simp) hend
  obtain ⟨e, c₂, he', hread₂⟩ := ok_of_bind hread₁
  obtain ⟨used, rfl, hend₂, he⟩ := h.expression (c := c₁) hroom hend₁ he'
  obtain ⟨closing, c₃, hclosing', hpure⟩ := ok_of_discard hread₂
  obtain ⟨rfl, hend₃, hclosing⟩ := before_of_expect hclosing' (by simp) hend₂
  cases hpure
  rw [Cursor.kind_next_before, leading_cons, hclosing] at he
  exact ⟨opening, used, closing, by simp, hend₃, hopening, hclosing, he⟩

theorem ended_of_optionalSemicolon {u : PUnit} (hend : c.HasEnd)
    (hread : optionalSemicolon c = .ok u d) :
    ∃ ending, c = d.before ending ∧ d.HasEnd ∧ Ended d.next.kind ending := by
  unfold optionalSemicolon at hread
  rw [← bind_pure (discard _)] at hread
  obtain ⟨found, c₁, hfound, hpure⟩ := ok_of_discard hread
  cases hpure
  rcases before_of_accept? hfound (by simp) hend with ⟨mark, -, rfl, hd, hmark⟩ | ⟨-, rfl, hnext⟩
  · exact ⟨[mark], rfl, hd, .marked hmark⟩
  · exact ⟨[], rfl, hend, .bare hnext⟩

theorem Finds.varDeclaration (h : deeper.Finds) {s : Stmt} (hroom : c.HasRoom room)
    (hend : c.HasEnd) (hkind : c.next.kind = .keyword .var)
    (hread : deeper.varDeclaration c = .ok s d) : Passes room (.form s) c d := by
  obtain ⟨first, c₁, hfirst', hread₁⟩ := ok_of_bind hread
  obtain ⟨rfl, hend₁, hfirst⟩ := before_of_advance hfirst' (by simp [hkind]) hend
  obtain ⟨name, c₂, hname', hread₂⟩ := ok_of_bind hread₁
  obtain ⟨rfl, hend₂, hname⟩ := before_of_expect hname' (by simp) hend₁
  obtain ⟨initial, c₃, hinitial, hread₃⟩ := ok_of_bind hread₂
  obtain ⟨found, c₄, hfound, hread₄⟩ := ok_of_bind hinitial
  obtain ⟨_, c₅, hending, hpure⟩ := ok_of_bind hread₃
  rcases before_of_accept? hfound (by simp) hend₂ with
    ⟨sign, rfl, rfl, hend₄, hsign⟩ | ⟨rfl, rfl, hnext⟩
  · obtain ⟨value, c₆, hvalue', hpure'⟩ := ok_of_bind hread₄
    cases hpure'
    obtain ⟨used, rfl, hend₃, hvalue⟩ := h.expression (c := c₄) hroom hend₄ hvalue'
    obtain ⟨ending, rfl, hd, hended⟩ := ended_of_optionalSemicolon hend₃ hending
    cases hpure
    rw [Cursor.kind_next_before] at hvalue
    exact ⟨first :: name :: sign :: used ++ ending, by simp, hd,
      .var_initial (hfirst.trans hkind) hname hsign hvalue hended⟩
  · cases hread₄
    obtain ⟨ending, rfl, hd, hended⟩ := ended_of_optionalSemicolon hend₂ hending
    cases hpure
    rw [Cursor.kind_next_before] at hnext
    exact ⟨first :: name :: ending, by simp, hd, .var (hfirst.trans hkind) hname hended hnext⟩

theorem Finds.conditional (h : deeper.Finds) {s : Stmt} (hroom : c.HasRoom room)
    (hend : c.HasEnd) (hkind : c.next.kind = .keyword .if)
    (hread : deeper.conditional c = .ok s d) : Passes room (.form s) c d := by
  obtain ⟨first, c₁, hfirst', hread₁⟩ := ok_of_bind hread
  obtain ⟨rfl, hend₁, hfirst⟩ := before_of_advance hfirst' (by simp [hkind]) hend
  obtain ⟨e, c₂, he', hread₂⟩ := ok_of_bind hread₁
  obtain ⟨opening, used, closing, rfl, hend₂, hopening, hclosing, he⟩ :=
    h.condition (c := c₁) hroom hend₁ he'
  obtain ⟨thenBranch, c₃, hthen', hread₃⟩ := ok_of_bind hread₂
  obtain ⟨branch, rfl, hend₃, hthen⟩ := h.statement (c := c₂) hroom hend₂ hthen'
  obtain ⟨elseBranch, c₄, helse, hpure⟩ := ok_of_bind hread₃
  obtain ⟨found, c₅, hfound, hread₅⟩ := ok_of_bind helse
  cases hpure
  rcases before_of_accept? hfound (by simp) hend₃ with
    ⟨sign, rfl, rfl, hend₅, hsign⟩ | ⟨rfl, rfl, hnext⟩
  · obtain ⟨other, c₆, hother', hpure'⟩ := ok_of_bind hread₅
    cases hpure'
    obtain ⟨more, rfl, hd, hother⟩ := h.statement (c := c₅) hroom hend₅ hother'
    rw [Cursor.kind_next_before, leading_cons, hsign] at hthen
    exact ⟨first :: opening :: used ++ closing :: branch ++ sign :: more, by simp, hd,
      .conditional_else (hfirst.trans hkind) hopening he hclosing hthen hsign hother⟩
  · cases hread₅
    exact ⟨first :: opening :: used ++ closing :: branch, by simp, hend₃,
      .conditional (hfirst.trans hkind) hopening he hclosing hthen hnext⟩

theorem Finds.whileLoop (h : deeper.Finds) {s : Stmt} (hroom : c.HasRoom room)
    (hend : c.HasEnd) (hkind : c.next.kind = .keyword .while)
    (hread : deeper.whileLoop c = .ok s d) : Passes room (.form s) c d := by
  obtain ⟨first, c₁, hfirst', hread₁⟩ := ok_of_bind hread
  obtain ⟨rfl, hend₁, hfirst⟩ := before_of_advance hfirst' (by simp [hkind]) hend
  obtain ⟨e, c₂, he', hread₂⟩ := ok_of_bind hread₁
  obtain ⟨opening, used, closing, rfl, hend₂, hopening, hclosing, he⟩ :=
    h.condition (c := c₁) hroom hend₁ he'
  obtain ⟨body, c₃, hbody', hpure⟩ := ok_of_bind hread₂
  obtain ⟨more, rfl, hend₃, hbody⟩ := h.statement (c := c₂) hroom hend₂ hbody'
  cases hpure
  exact ⟨first :: opening :: used ++ closing :: more, by simp, hend₃,
    .whileLoop (hfirst.trans hkind) hopening he hclosing hbody⟩

theorem Finds.returnValue (h : deeper.Finds) {value : Option Expr} (hroom : c.HasRoom room)
    (hend : c.HasEnd) (hread : deeper.returnValue c = .ok value d) :
    value = none ∧ c = d ∧ d.next.kind.endsReturn = true ∨
      ∃ e, value = some e ∧ Passes room (.expression e) c d := by
  have hchoice := ok_of_peekKind hread
  generalize hkind : c.next.kind = kind at hchoice
  have hbare : ∀ {value : Option Expr}, kind.endsReturn = true →
      (pure none : Parser (Option Expr)) c = .ok value d →
      value = none ∧ c = d ∧ d.next.kind.endsReturn = true := by
    intro value hreturn hpure
    cases hpure
    exact ⟨rfl, rfl, hkind ▸ hreturn⟩
  split at hchoice
  · exact .inl (hbare rfl hchoice)
  · exact .inl (hbare rfl hchoice)
  · exact .inl (hbare rfl hchoice)
  · obtain ⟨e, c₁, he, hpure⟩ := ok_of_bind hchoice
    cases hpure
    exact .inr ⟨e, rfl, h.expression hroom hend he⟩

theorem Finds.returnStatement (h : deeper.Finds) {s : Stmt} (hroom : c.HasRoom room)
    (hend : c.HasEnd) (hkind : c.next.kind = .keyword .return)
    (hread : deeper.returnStatement c = .ok s d) : Passes room (.form s) c d := by
  obtain ⟨first, c₁, hfirst', hread₁⟩ := ok_of_bind hread
  obtain ⟨rfl, hend₁, hfirst⟩ := before_of_advance hfirst' (by simp [hkind]) hend
  obtain ⟨_, _, hget, hread₂⟩ := ok_of_bind hread₁
  cases hget
  split at hread₂
  · cases hread₂
  · rename_i hdepth
    have hinside : c₁.inside = true := by simpa [Cursor.inside] using hdepth
    obtain ⟨value, c₃, hvalue', hread₃⟩ := ok_of_bind hread₂
    obtain ⟨_, c₄, hending, hpure⟩ := ok_of_bind hread₃
    cases hpure
    rcases h.returnValue (c := c₁) hroom hend₁ hvalue' with
      ⟨rfl, rfl, hbare⟩ | ⟨e, rfl, used, rfl, hend₃, he⟩
    · obtain ⟨ending, rfl, hd, hended⟩ := ended_of_optionalSemicolon hend₁ hending
      rw [Cursor.kind_next_before] at hbare
      refine ⟨first :: ending, by simp, hd, ?_⟩
      rw [Cursor.inside_before] at hinside
      rw [hinside]
      exact .returnForm (hfirst.trans hkind) hended hbare
    · obtain ⟨ending, rfl, hd, hended⟩ := ended_of_optionalSemicolon hend₃ hending
      rw [Cursor.kind_next_before] at he
      refine ⟨first :: used ++ ending, by simp, hd, ?_⟩
      rw [Cursor.inside_before, Cursor.inside_before] at hinside
      rw [Cursor.inside_before, hinside] at he
      rw [hinside]
      exact .returnForm_value (hfirst.trans hkind) he hended

theorem Finds.expressionStatement (h : deeper.Finds) {s : Stmt} (hroom : c.HasRoom room)
    (hend : c.HasEnd)
    (hstart : startsForm c.next.kind (c.remaining.tail.headD endOfText).kind = false)
    (hread : deeper.expressionStatement c = .ok s d) : Passes room (.form s) c d := by
  obtain ⟨e, c₁, he', hread₁⟩ := ok_of_bind hread
  obtain ⟨used, rfl, hend₁, he⟩ := h.expression hroom hend he'
  obtain ⟨_, c₂, hending, hpure⟩ := ok_of_bind hread₁
  obtain ⟨ending, rfl, hd, hended⟩ := ended_of_optionalSemicolon hend₁ hending
  cases hpure
  rw [Cursor.kind_next_before] at he
  refine ⟨used ++ ending, by simp, hd, .expressionForm he hended ?_⟩
  obtain ⟨t, rest, rfl, -⟩ := he.begins
  rw [Cursor.before_before, Cursor.kind_next_before, List.cons_append,
    Cursor.kind_second_before] at hstart
  exact hstart

theorem Finds.anyStatement (h : deeper.Finds) : deeper.anyStatement.Finds .form := by
  intro room c d s hroom hend hread
  have hchoice := ok_of_peekKind hread
  generalize hkind : c.next.kind = kind at hchoice
  split at hchoice
  · exact h.varDeclaration hroom hend hkind hchoice
  · have hsecond : (if (c.remaining.tail.headD endOfText).kind = .identifier then _ else _ :
        Parser Stmt) c = .ok s d := hchoice
    split at hsecond
    · rename_i hname
      obtain ⟨⟨code, span⟩, c₁, hcode', hpure⟩ := ok_of_bind hsecond
      obtain ⟨used, rfl, hd, hcode⟩ := h.function hroom hend hkind hcode'
      cases hpure
      obtain ⟨t, rest, rfl, -⟩ := hcode.begins
      rw [Cursor.kind_second_before] at hname
      obtain ⟨name, hnamed⟩ := hcode.exists_name hname
      exact ⟨t :: rest, rfl, hd, .functionForm hcode hnamed⟩
    · rename_i hname
      exact h.expressionStatement hroom hend (by rw [hkind]; simpa [startsForm] using hname) hsecond
  · exact h.conditional hroom hend hkind hchoice
  · exact h.whileLoop hroom hend hkind hchoice
  · exact h.returnStatement hroom hend hkind hchoice
  · obtain ⟨⟨body, span⟩, c₁, hbody', hpure⟩ := ok_of_bind hchoice
    obtain ⟨used, rfl, hd, hbody⟩ := h.block hroom hend hbody'
    cases hpure
    exact ⟨used, rfl, hd, .blockForm hbody⟩
  · obtain ⟨mark, c₁, hmark', hpure⟩ := ok_of_bind hchoice
    obtain ⟨rfl, hd, hmark⟩ := before_of_advance hmark' (by simp [hkind]) hend
    cases hpure
    exact ⟨[mark], rfl, hd, .empty (hmark.trans hkind)⟩
  · refine h.expressionStatement hroom hend ?_ hchoice
    rw [hkind]
    unfold startsForm
    split <;> simp_all

theorem Finds.above (h : deeper.Finds) : deeper.above.Finds :=
  ⟨Parser.Finds.nested h.anyStatement .statement, Parser.Finds.nested h.assignment .expression,
    Parser.Finds.deepened h.unary .operand⟩

theorem finds_ofAllowance (allowance : Nat) : (ofAllowance allowance).Finds := by
  induction allowance with
  | zero => exact ⟨finds_tooDeep, finds_tooDeep, finds_tooDeep⟩
  | succ allowance ih => exact ih.above

end Deeper

/-- The tokens of an accepted program are written for it. -/
theorem derives_of_programWithin {limit : Nat} {front : List Token} {last : Token}
    {body : List Stmt} (hfront : ∀ t ∈ front, t.kind ≠ .endOfText) (hlast : last.kind = .endOfText)
    (h : programWithin limit (front ++ [last]) = .ok body) :
    Derives limit false .endOfText front (.statements body) := by
  unfold programWithin at h
  split at h
  · rename_i body d hread
    cases h
    have hroom : Cursor.HasRoom ⟨front ++ [last], limit, 0, 0⟩ limit := (Nat.zero_add limit).symm
    have hend : Cursor.HasEnd ⟨front ++ [last], limit, 0, 0⟩ := ⟨last, by simp, hlast⟩
    obtain ⟨⟨used, hbefore, hd, hbody⟩, hclose⟩ :=
      (Deeper.finds_ofAllowance limit).manyUntil hroom hend (Nat.le_refl _) hread
    have hkind : d.next.kind = .endOfText := of_decide_eq_true hclose
    have hinside : d.inside = false := (congrArg Cursor.inside hbefore).symm
    have hused : used = front := by
      have hsplit : front ++ [last] = used ++ d.remaining := congrArg Cursor.remaining hbefore
      rcases List.append_eq_append_iff.mp hsplit with ⟨more, rfl, hmore⟩ | ⟨more, rfl, hmore⟩
      · have := hd.pos
        have := congrArg List.length hmore
        rw [List.length_append, List.length_singleton] at this
        rw [List.eq_nil_of_length_eq_zero (l := more) (by omega), List.append_nil]
      · cases more with
        | nil => rw [List.append_nil]
        | cons t more =>
            have ht : d.next = t := congrArg (List.headD · Parser.endOfText) hmore
            exact absurd (ht ▸ hkind) (hfront t (by simp))
    rw [hkind, hinside, hused] at hbody
    exact hbody
  · cases h

/-- A text that is accepted has tokens that are written for its program. -/
theorem derives_of_programOfSource {source : String} {scratch : TextBuffer} {body : List Stmt}
    (h : (programOfSource source scratch).1 = .ok body) :
    ∃ (front : List Token) (stop : Nat),
      (tokenize source scratch).1 = .ok (front ++ [.ofEnd stop]) ∧
      (∀ t ∈ front, t.kind ≠ .endOfText) ∧
      Derives maxTreeDepth false .endOfText front (.statements body) := by
  have hprogram : (tokenize source scratch).1 >>= programOfTokens = .ok body := h
  cases htokens : (tokenize source scratch).1 with
  | error d =>
      rw [htokens] at hprogram
      cases hprogram
  | ok tokens =>
      rw [htokens] at hprogram
      obtain ⟨front, stop, rfl, hfront⟩ := exists_front_of_scanFrom htokens
      exact ⟨front, stop, rfl, hfront, derives_of_programWithin hfront rfl hprogram⟩

end ScriptHost
