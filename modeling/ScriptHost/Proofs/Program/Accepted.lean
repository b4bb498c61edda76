import ScriptHost.Proofs.Program.Derived
import ScriptHost.Proofs.Program.Reads

/-!
What is in the grammar is read: from a cursor with enough room in front of tokens that are written
for a tree, the parsers take just these tokens and give that tree. One lemma for each production
runs it on the tokens of its parts, and together with the other direction the grammar and the
parsers describe the same language.
-/

namespace ScriptHost

open ScriptHost.Parser

namespace Parser

variable {α β : Type} {c d : Cursor} {kind : TokenKind} {message : String} {t : Token}
  {rest : List Token}

theorem discard_bind_of_ok {p : Parser α} {f : PUnit → Parser β} {a : α} (h : p c = .ok a d) :
    (discard p >>= f) c = f ⟨⟩ d := by
  have hsame : (discard p >>= f) = p >>= fun _ => f ⟨⟩ := bind_map_left _ p f
  rw [hsame, bind_of_ok h]

theorem peekKind_of_next (h : c.next.kind = kind) : peekKind c = .ok kind c :=
  congrArg (EStateM.Result.ok · c) h

theorem peekKind_before (h : t.kind = kind) :
    peekKind (d.before (t :: rest)) = .ok kind (d.before (t :: rest)) :=
  peekKind_of_next h

theorem advance_before (h : t.kind ≠ .endOfText) :
    advance (d.before (t :: rest)) = .ok t (d.before rest) := by
  have htaken : (d.before (t :: rest)).taken = d.before rest := if_neg h
  rw [advance_apply, htaken]
  rfl

theorem expect_before (h : t.kind = kind) (hkind : kind ≠ .endOfText) :
    expect kind message (d.before (t :: rest)) = .ok t (d.before rest) := by
  have hnext : (d.before (t :: rest)).next.kind = kind := h
  rw [expect_apply, if_pos hnext, ← advance_apply, advance_before (h ▸ hkind)]

theorem accept?_before (h : t.kind = kind) (hkind : kind ≠ .endOfText) :
    accept? kind (d.before (t :: rest)) = .ok (some t) (d.before rest) := by
  have hnext : (d.before (t :: rest)).next.kind = kind := h
  have htaken : (d.before (t :: rest)).taken = d.before rest := if_neg (h ▸ hkind)
  rw [accept?_apply, if_pos hnext, htaken]
  rfl

theorem accept?_none (h : c.next.kind ≠ kind) : accept? kind c = .ok none c := by
  rw [accept?_apply, if_neg h]

theorem following?_none {item : Parser α} (h : c.next.kind ≠ kind) :
    following? kind item c = .ok none c :=
  (bind_of_ok (accept?_none h)).trans rfl

theorem following?_before {item : Parser α} {a : α} (h : t.kind = kind) (hkind : kind ≠ .endOfText)
    (hitem : item (c.before rest) = .ok a d) :
    following? kind item (c.before (t :: rest)) = .ok (some a) d :=
  (bind_of_ok (accept?_before h hkind)).trans ((bind_of_ok hitem).trans rfl)

theorem expectProperty_before (h : t.kind.isProperty = true) :
    expectProperty message (d.before (t :: rest)) = .ok t (d.before rest) := by
  have hadvance : t.kind ≠ .endOfText → advance (d.before (t :: rest)) = .ok t (d.before rest) :=
    advance_before
  have hpeek := @peekKind_before d _ t rest rfl
  generalize t.kind = kind at h hadvance hpeek
  cases kind with
  | identifier | keyword k => exact (bind_of_ok hpeek).trans (hadvance (by simp))
  | _ => cases h

theorem nested_of_ok {p : Parser α} {a : α} {room : Nat} (hroom : c.HasRoom (room + 1))
    (h : p (c.atDepth (c.depth + 1)) = .ok a (d.atDepth (c.depth + 1)))
    (hdepth : d.depth = c.depth) : nested p c = .ok a d := by
  have hentered : p { c with depth := c.depth + 1 } = .ok a (d.atDepth (c.depth + 1)) := h
  refine (bind_of_ok (descend_of_hasRoom hroom).1).trans ?_
  rw [hentered]
  change EStateM.Result.ok a (d.atDepth (c.depth + 1 - 1)) = _
  rw [Nat.add_sub_cancel, ← hdepth, Cursor.atDepth_self]

theorem restoringDepth_of_ok {p : Parser α} {a : α} {depth : Nat}
    (h : p c = .ok a (d.atDepth depth)) (hdepth : d.depth = c.depth) :
    restoringDepth p c = .ok a d := by
  have hrestored : (d.atDepth depth).atDepth c.depth = d := by
    rw [Cursor.atDepth_atDepth, ← hdepth, Cursor.atDepth_self]
  exact (bind_of_ok rfl).trans ((bind_of_ok h).trans (congrArg _ hrestored))

theorem inFunction_of_ok {p : Parser α} {a : α}
    (h : p { c with functionDepth := c.functionDepth + 1 } =
      .ok a { d with functionDepth := d.functionDepth + 1 }) : inFunction p c = .ok a d := by
  unfold inFunction
  rw [h]
  rfl

theorem separated_of_names {used : List Token} {names : List String} (h : Names used names)
    (hnext : d.next.kind ≠ .comma) {bound : List Token} (hbound : used.length ≤ bound.length) :
    ∃ ts, separated (expect .identifier message) bound (d.before used) = .ok ts d ∧
      ts.map Token.lexeme = names := by
  induction h generalizing bound with
  | one hname =>
      obtain ⟨token, bound, rfl⟩ := List.exists_cons_of_length_pos hbound
      refine ⟨[_], (bind_of_ok (expect_before hname (by simp))).trans ?_, rfl⟩
      exact (bind_of_ok (accept?_none hnext)).trans rfl
  | more hname hcomma _ ih =>
      obtain ⟨token, bound, rfl⟩ := List.exists_cons_of_length_pos (Nat.zero_lt_of_lt hbound)
      simp only [List.length_cons] at hbound
      obtain ⟨ts, hts, rfl⟩ := @ih bound (by omega)
      refine ⟨_ :: ts, (bind_of_ok (expect_before hname (by simp))).trans ?_, rfl⟩
      refine (bind_of_ok (accept?_before hcomma (by simp))).trans ?_
      exact (bind_of_ok hts).trans rfl

theorem separatedUntil_of_parameters {used : List Token} {names : List String}
    (h : Parameters used names) (message : String) (hnext : d.next.kind = .rightParen) :
    ∃ ts, separatedUntil .rightParen (expect .identifier message) (d.before used) = .ok ts d ∧
      ts.map Token.lexeme = names := by
  change ∃ ts, (if (d.before used).next.kind = .rightParen then pure [] else
    tokensLeft >>= separated (expect .identifier message) : Parser (List Token)) _ = _ ∧ _
  rw [Cursor.kind_next_before]
  cases h with
  | none =>
      rw [leading_nil, if_pos hnext]
      exact ⟨[], rfl, rfl⟩
  | some h =>
      have hname : leading used d.next.kind = .identifier := by cases h <;> assumption
      rw [hname, if_neg (by simp)]
      have hbound : used.length ≤ (d.before used).remaining.length := by
        rw [Cursor.length_remaining_before]
        exact Nat.le_add_right _ _
      exact separated_of_names h (by simp [hnext]) hbound

theorem key_before (h : t.kind.isKey = true) :
    Deeper.key (d.before (t :: rest)) = .ok t (d.before rest) := by
  have hadvance : t.kind ≠ .endOfText → advance (d.before (t :: rest)) = .ok t (d.before rest) :=
    advance_before
  have hproperty : t.kind.isProperty = true →
      expectProperty "expected property name" (d.before (t :: rest)) = .ok t (d.before rest) :=
    expectProperty_before
  have hpeek := @peekKind_before d _ t rest rfl
  generalize t.kind = kind at h hadvance hproperty hpeek
  cases kind with
  | string | number => exact (bind_of_ok hpeek).trans (hadvance (by simp))
  | identifier | keyword k => exact (bind_of_ok hpeek).trans (hproperty rfl)
  | _ => cases h

end Parser

/-- No statement begins with what closes a block. -/
theorem not_closes_of_starts (kind : TokenKind) (h : startsStatement kind = true) :
    (decide (kind = .rightBrace) || decide (kind = .endOfText)) = false := by
  cases kind <;> first | rfl | cases h

/-- The parser for the construct reads it between the cursors. Where it looks for a closing token
that is one of those that come next, and a repetition may have any sufficient bound. -/
def Construct.Accepted (deeper : Deeper) (construct : Construct) (c d : Cursor) : Prop :=
  match construct with
  | .statements body => ∀ (closes : TokenKind → Bool) (bound : List Token),
    (∀ kind, startsStatement kind = true → closes kind = false) → closes d.next.kind = true →
      c.remaining.length ≤ bound.length → manyUntil closes deeper.statement bound c = .ok body d
  | .statement s => deeper.statement c = .ok s d
  | .form s => deeper.anyStatement c = .ok s d
  | .block body span => deeper.block c = .ok (body, span) d
  | .function code span => deeper.function c = .ok (code, span) d
  | .expression e => deeper.expression c = .ok e d
  | .assignment e => deeper.assignment c = .ok e d
  | .level groups e => deeper.level groups c = .ok e d
  | .operations operators tighter left e => ∀ bound : List Token,
    c.remaining.length ≤ bound.length →
      ∃ depth, Deeper.operations operators (deeper.level tighter) bound left c =
        .ok e (d.atDepth depth)
  | .operand e => deeper.operand c = .ok e d
  | .unary e => deeper.unary c = .ok e d
  | .suffixed e => deeper.suffixed c = .ok e d
  | .suffixes left e => ∀ bound : List Token, c.remaining.length ≤ bound.length →
      ∃ depth, deeper.suffixes bound left c = .ok e (d.atDepth depth)
  | .primary e => deeper.primary c = .ok e d
  | .arguments es => d.next.kind = .rightParen →
      separatedUntil .rightParen deeper.expression c = .ok es d
  | .items es => ∀ bound : List Token, c.remaining.length ≤ bound.length →
      separated deeper.expression bound c = .ok es d
  | .entries es => d.next.kind = .rightBrace → ∀ bound : List Token,
      c.remaining.length ≤ bound.length → deeper.entries bound c = .ok es d

/-- With this room or more levels to go down, the tokens are read as the construct. -/
def Accepts (room : Nat) (inside : Bool) (next : TokenKind) (used : List Token)
    (construct : Construct) : Prop :=
  ∀ {allowance : Nat} {d : Cursor}, room ≤ allowance → d.HasRoom room → d.next.kind = next →
    d.inside = inside → construct.Accepted (Deeper.ofAllowance allowance) (d.before used) d

namespace Accepts

variable {room : Nat} {inside : Bool} {next : TokenKind} {used rest : List Token}
  {first sign opening closing : Token}

theorem statements_nil : Accepts room inside next [] (.statements []) := by
  intro allowance d _ _ _ _ closes bound _ hclose _
  cases bound with
  | nil => rfl
  | cons token bound =>
      change (if closes d.next.kind = true then pure [] else _ : Parser (List Stmt)) d = _
      rw [if_pos hclose]
      rfl

theorem statements_cons {s : Stmt} {body : List Stmt} (hbegins : Opens startsStatement used)
    (hfirst : Accepts room inside (leading rest next) used (.statement s))
    (hrest : Accepts room inside next rest (.statements body)) :
    Accepts room inside next (used ++ rest) (.statements (s :: body)) := by
  intro allowance d hallowance hroom hnext hinside closes bound hcloses hclose hbound
  obtain ⟨t, others, rfl, ht⟩ := hbegins
  rw [Cursor.length_remaining_before, List.length_append, List.length_cons] at hbound
  obtain ⟨token, bound, rfl⟩ := List.exists_cons_of_length_pos (l := bound) (by omega)
  rw [List.length_cons] at hbound
  rw [← Cursor.before_before]
  change (if closes t.kind = true then _ else _ : Parser (List Stmt)) _ = _
  rw [if_neg (by simp [hcloses _ ht])]
  have hs := hfirst (d := d.before rest) hallowance hroom (by simp [hnext]) hinside
  have hbody := hrest hallowance hroom hnext hinside closes bound hcloses hclose
    (by rw [Cursor.length_remaining_before]; omega)
  exact (bind_of_ok hs).trans ((bind_of_ok hbody).trans rfl)

/-- A construct that is one level deeper than another is read with the parsers of one level more. -/
theorem deeper {inner outer : Construct} (hinner : Accepts room inside next used inner)
    (houter : ∀ {deeper : Deeper} {c d : Cursor}, c.HasRoom (room + 1) → d.depth = c.depth →
      inner.Accepted deeper (c.atDepth (c.depth + 1)) (d.atDepth (c.depth + 1)) →
      outer.Accepted deeper.above c d) :
    Accepts (room + 1) inside next used outer := by
  intro allowance d hallowance hroom hnext hinside
  obtain ⟨allowance, rfl⟩ := Nat.exists_eq_add_of_le' (Nat.zero_lt_of_lt hallowance)
  have hentered : (d.atDepth (d.depth + 1)).HasRoom room := (descend_of_hasRoom hroom).2
  exact houter hroom rfl
    (hinner (d := d.atDepth (d.depth + 1)) (Nat.le_of_succ_le_succ hallowance) hentered hnext
      hinside)

theorem statement {s : Stmt} (h : Accepts room inside next used (.form s)) :
    Accepts (room + 1) inside next used (.statement s) := by
  apply h.deeper
  intro deeper c d hroom hdepth hread
  exact nested_of_ok hroom hread hdepth

theorem expression {e : Expr} (h : Accepts room inside next used (.assignment e)) :
    Accepts (room + 1) inside next used (.expression e) := by
  apply h.deeper
  intro deeper c d hroom hdepth hread
  exact nested_of_ok hroom hread hdepth

theorem operand {e : Expr} (h : Accepts room inside next used (.unary e)) :
    Accepts (room + 1) inside next used (.operand e) := by
  apply h.deeper
  intro deeper c d hroom hdepth hread
  exact deepened_eq_ok_iff.mpr (nested_of_ok hroom hread hdepth)

theorem block {body : List Stmt} (hopening : opening.kind = .leftBrace)
    (hbody : Accepts room inside .rightBrace used (.statements body))
    (hclosing : closing.kind = .rightBrace) :
    Accepts room inside next (opening :: used ++ [closing])
      (.block body (opening.span.through closing.span)) := by
  intro allowance d hallowance hroom hnext hinside
  have hstatements := hbody (d := d.before [closing]) hallowance hroom hclosing hinside
    (fun kind => kind = .rightBrace || kind = .endOfText) _ not_closes_of_starts
    (by simp [hclosing]) (Nat.le_refl _)
  rw [List.cons_append, Construct.Accepted]
  refine (bind_of_ok (expect_before hopening (by simp))).trans ?_
  rw [← Cursor.before_before]
  exact (bind_of_ok hstatements).trans
    ((bind_of_ok (expect_before hclosing (by simp))).trans rfl)

/-- A body is read inside one more function. -/
theorem function {parameters : List Token} {names : List String} {body : List Stmt} {span : Span}
    {name : Option Token} (hfirst : first.kind = .keyword .function)
    (hname : ∀ t ∈ name, t.kind = .identifier) (hopening : opening.kind = .leftParen)
    (hparameters : Parameters parameters names) (hclosing : closing.kind = .rightParen)
    (hbody : Accepts room true next used (.block body span)) :
    Accepts room inside next (first :: name.toList ++ opening :: parameters ++ closing :: used)
      (.function ⟨name.map Token.lexeme, names, body⟩ (first.span.through span)) := by
  intro allowance d hallowance hroom hnext _
  have hblock := hbody (d := { d with functionDepth := d.functionDepth + 1 }) hallowance hroom hnext
    rfl
  obtain ⟨ts, hts, rfl⟩ := separatedUntil_of_parameters (d := d.before (closing :: used))
    hparameters "expected parameter name" hclosing
  have hcursor : d.before (first :: name.toList ++ opening :: parameters ++ closing :: used) =
      (((d.before (closing :: used)).before (opening :: parameters)).before name.toList).before
        [first] := by
    simp
  change (Deeper.ofAllowance allowance).function _ = _
  rw [hcursor]
  refine (bind_of_ok (advance_before (by simp [hfirst]))).trans ?_
  have hfound : accept? .identifier
      (((d.before (closing :: used)).before (opening :: parameters)).before name.toList) =
        .ok name ((d.before (closing :: used)).before (opening :: parameters)) := by
    cases name with
    | none => exact accept?_none (by simp [hopening])
    | some t => exact accept?_before (hname t rfl) (by simp)
  refine (bind_of_ok hfound).trans ?_
  refine (discard_bind_of_ok (expect_before hopening (by simp))).trans ?_
  refine (bind_of_ok hts).trans ?_
  refine (discard_bind_of_ok (expect_before hclosing (by simp))).trans ?_
  exact (bind_of_ok (inFunction_of_ok (c := d.before used) (d := d) hblock)).trans rfl

theorem condition {condition : List Token} {e : Expr} {allowance : Nat} {d : Cursor}
    (hallowance : room ≤ allowance) (hroom : d.HasRoom room) (hinside : d.inside = inside)
    (hopening : opening.kind = .leftParen) (hclosing : closing.kind = .rightParen)
    (h : Accepts room inside .rightParen condition (.expression e)) :
    (Deeper.ofAllowance allowance).condition (d.before (opening :: condition ++ [closing])) =
      .ok e d := by
  have he := h (d := d.before [closing]) hallowance hroom hclosing hinside
  refine (discard_bind_of_ok (expect_before hopening (by simp))).trans ?_
  rw [List.append_eq, ← Cursor.before_before]
  refine (bind_of_ok he).trans ?_
  exact (discard_bind_of_ok (expect_before hclosing (by simp))).trans rfl

theorem items_one {e : Expr} (h : Accepts room inside next used (.expression e))
    (hnext : next ≠ .comma) (hbegins : Opens startsExpression used) :
    Accepts room inside next used (.items [e]) := by
  intro allowance d hallowance hroom hkind hinside bound hbound
  obtain ⟨t, others, rfl, -⟩ := hbegins
  obtain ⟨token, bound, rfl⟩ := List.exists_cons_of_length_pos
    (Nat.lt_of_lt_of_le
      (by simp only [Cursor.length_remaining_before, List.length_cons]; omega) hbound)
  refine (bind_of_ok (h hallowance hroom hkind hinside)).trans ?_
  exact (bind_of_ok (accept?_none (hkind ▸ hnext))).trans rfl

theorem items_cons {comma : Token} {e : Expr} {es : List Expr}
    (h : Accepts room inside .comma used (.expression e)) (hcomma : comma.kind = .comma)
    (hrest : Accepts room inside next rest (.items es)) :
    Accepts room inside next (used ++ comma :: rest) (.items (e :: es)) := by
  intro allowance d hallowance hroom hnext hinside bound hbound
  simp only [Cursor.length_remaining_before, List.length_append, List.length_cons] at hbound
  obtain ⟨token, bound, rfl⟩ := List.exists_cons_of_length_pos (l := bound) (by omega)
  rw [List.length_cons] at hbound
  have hitems := hrest hallowance hroom hnext hinside bound
    (by rw [Cursor.length_remaining_before]; omega)
  rw [← Cursor.before_before]
  refine (bind_of_ok (h (d := d.before (comma :: rest)) hallowance hroom hcomma hinside)).trans ?_
  refine (bind_of_ok (accept?_before hcomma (by simp))).trans ?_
  exact (bind_of_ok hitems).trans rfl

theorem arguments_nil : Accepts room inside next [] (.arguments []) := by
  intro allowance d _ _ _ _ hclose
  change (if d.next.kind = .rightParen then pure [] else _ : Parser (List Expr)) d = _
  rw [if_pos hclose]
  rfl

theorem arguments {es : List Expr} (h : Accepts room inside next used (.items es))
    (hbegins : Opens startsExpression used) : Accepts room inside next used (.arguments es) := by
  intro allowance d hallowance hroom hnext hinside _
  change (if (d.before used).next.kind = .rightParen then pure [] else _ : Parser (List Expr)) _ = _
  have hstart := hbegins.leading d.next.kind
  rw [Cursor.kind_next_before, if_neg (by rintro heq; rw [heq] at hstart; cases hstart)]
  exact h hallowance hroom hnext hinside _ (Nat.le_refl _)

theorem entries_nil : Accepts room inside next [] (.entries []) := by
  intro allowance d _ _ _ _ hclose bound hbound
  cases bound with
  | nil => rfl
  | cons token bound =>
      change (if d.next.kind = .rightBrace then pure [] else _ : Parser (List Entry)) d = _
      rw [if_pos hclose]
      rfl

theorem isKey_ne_rightBrace {kind : TokenKind} (h : kind.isKey = true) : kind ≠ .rightBrace := by
  rintro rfl
  cases h

theorem entries_one {key colon : Token} {e : Expr} (hkey : key.kind.isKey = true)
    (hcolon : colon.kind = .colon) (h : Accepts room inside next used (.expression e))
    (hnext : next ≠ .comma) :
    Accepts room inside next (key :: colon :: used) (.entries [⟨key.lexeme, e⟩]) := by
  intro allowance d hallowance hroom hkind hinside _ bound hbound
  simp only [Cursor.length_remaining_before, List.length_cons] at hbound
  obtain ⟨token, bound, rfl⟩ := List.exists_cons_of_length_pos (l := bound) (by omega)
  change (if key.kind = .rightBrace then _ else _ : Parser (List Entry)) _ = _
  rw [if_neg (isKey_ne_rightBrace hkey)]
  refine (bind_of_ok (key_before hkey)).trans ?_
  refine (discard_bind_of_ok (expect_before hcolon (by simp))).trans ?_
  refine (bind_of_ok (h hallowance hroom hkind hinside)).trans ?_
  exact (bind_of_ok (accept?_none (hkind ▸ hnext))).trans rfl

theorem entries_cons {key colon comma : Token} {e : Expr} {es : List Entry}
    (hkey : key.kind.isKey = true) (hcolon : colon.kind = .colon)
    (h : Accepts room inside .comma used (.expression e)) (hcomma : comma.kind = .comma)
    (hrest : Accepts room inside next rest (.entries es)) :
    Accepts room inside next (key :: colon :: used ++ comma :: rest)
      (.entries (⟨key.lexeme, e⟩ :: es)) := by
  intro allowance d hallowance hroom hnext hinside hclose bound hbound
  simp only [Cursor.length_remaining_before, List.length_cons, List.length_append] at hbound
  obtain ⟨token, bound, rfl⟩ := List.exists_cons_of_length_pos (l := bound) (by omega)
  rw [List.length_cons] at hbound
  have hentries := hrest hallowance hroom hnext hinside hclose bound
    (by rw [Cursor.length_remaining_before]; omega)
  rw [← Cursor.before_before]
  change (if key.kind = .rightBrace then _ else _ : Parser (List Entry)) _ = _
  rw [if_neg (isKey_ne_rightBrace hkey)]
  refine (bind_of_ok (key_before hkey)).trans ?_
  refine (discard_bind_of_ok (expect_before hcolon (by simp))).trans ?_
  refine (bind_of_ok (h (d := d.before (comma :: rest)) hallowance hroom hcomma hinside)).trans ?_
  refine (bind_of_ok (accept?_before hcomma (by simp))).trans ?_
  exact (bind_of_ok hentries).trans rfl

theorem number {t : Token} {x : Float} (ht : t.kind = .number)
    (hvalue : readFloat? t.lexeme.toList = some x) :
    Accepts room inside next [t] (.primary (.literal t.span (.number x))) := by
  intro allowance d _ _ _ _
  refine (bind_of_ok (peekKind_before ht)).trans ?_
  refine (bind_of_ok (advance_before (by simp [ht]))).trans ?_
  rw [hvalue]
  rfl

theorem string {t : Token} (ht : t.kind = .string) :
    Accepts room inside next [t] (.primary (.literal t.span (.string t.lexeme))) := by
  intro allowance d _ _ _ _
  refine (bind_of_ok (peekKind_before ht)).trans ?_
  exact (bind_of_ok (advance_before (by simp [ht]))).trans rfl

theorem name {t : Token} (ht : t.kind = .identifier) :
    Accepts room inside next [t] (.primary (.variable t.span t.lexeme)) := by
  intro allowance d _ _ _ _
  refine (bind_of_ok (peekKind_before ht)).trans ?_
  exact (bind_of_ok (advance_before (by simp [ht]))).trans rfl

theorem this {t : Token} (ht : t.kind = .keyword .this) :
    Accepts room inside next [t] (.primary (.this t.span)) := by
  intro allowance d _ _ _ _
  refine (bind_of_ok (peekKind_before ht)).trans ?_
  exact (bind_of_ok (advance_before (by simp [ht]))).trans rfl

theorem constant {t : Token} {word : Keyword} {value : Literal} (ht : t.kind = .keyword word)
    (hvalue : word.literal? = some value) :
    Accepts room inside next [t] (.primary (.literal t.span value)) := by
  intro allowance d _ _ _ _
  refine (bind_of_ok (peekKind_before ht)).trans ?_
  cases word <;> cases hvalue
  all_goals exact (bind_of_ok (advance_before (by simp [ht]))).trans rfl

theorem functionExpression {code : FunctionCode} {span : Span}
    (h : Accepts room inside next used (.function code span))
    (hbegins : Opens (· = .keyword .function) used) :
    Accepts room inside next used (.primary (.function span code)) := by
  intro allowance d hallowance hroom hnext hinside
  obtain ⟨t, others, rfl, ht⟩ := hbegins
  refine (bind_of_ok (peekKind_before (of_decide_eq_true ht))).trans ?_
  exact (bind_of_ok (h hallowance hroom hnext hinside)).trans rfl

theorem parentheses {e : Expr} (hopening : opening.kind = .leftParen)
    (h : Accepts room inside .rightParen used (.expression e))
    (hclosing : closing.kind = .rightParen) :
    Accepts room inside next (opening :: used ++ [closing]) (.primary e) := by
  intro allowance d hallowance hroom _ hinside
  have he := h (d := d.before [closing]) hallowance hroom hclosing hinside
  rw [← Cursor.before_before]
  refine (bind_of_ok (peekKind_before hopening)).trans ?_
  refine (discard_bind_of_ok (advance_before (by simp [hopening]))).trans ?_
  refine (bind_of_ok he).trans ?_
  exact (discard_bind_of_ok (expect_before hclosing (by simp))).trans rfl

theorem object {es : List Entry} (hopening : opening.kind = .leftBrace)
    (h : Accepts room inside .rightBrace used (.entries es))
    (hclosing : closing.kind = .rightBrace) :
    Accepts room inside next (opening :: used ++ [closing])
      (.primary (.object (opening.span.through closing.span) es)) := by
  intro allowance d hallowance hroom _ hinside
  have hes := h (d := d.before [closing]) hallowance hroom hclosing hinside hclosing _
    (Nat.le_refl _)
  rw [← Cursor.before_before]
  refine (bind_of_ok (peekKind_before hopening)).trans ?_
  refine (bind_of_ok (advance_before (by simp [hopening]))).trans ?_
  refine (bind_of_ok hes).trans ?_
  exact (bind_of_ok (expect_before hclosing (by simp))).trans rfl

theorem suffixes_nil {e : Expr} (hparen : next ≠ .leftParen) (hdot : next ≠ .dot) :
    Accepts room inside next [] (.suffixes e e) := by
  intro allowance d _ _ hnext _ bound _
  refine ⟨d.depth, ?_⟩
  cases bound with
  | nil => rfl
  | cons token bound =>
      refine (bind_of_ok (peekKind_of_next hnext)).trans ?_
      split
      · exact absurd rfl hparen
      · exact absurd rfl hdot
      · rfl

theorem suffixes_call {es : List Expr} {left e : Expr} (hopening : opening.kind = .leftParen)
    (harguments : Accepts room inside .rightParen used (.arguments es))
    (hclosing : closing.kind = .rightParen)
    (hchain : Accepts room inside next rest
      (.suffixes (.call (left.span.through closing.span) left es) e)) :
    Accepts (room + 1) inside next (opening :: used ++ closing :: rest) (.suffixes left e) := by
  intro allowance d hallowance hroom hnext hinside bound hbound
  have hentered := (descend_of_hasRoom hroom).2
  simp only [Cursor.length_remaining_before, List.length_cons, List.length_append] at hbound
  obtain ⟨token, bound, rfl⟩ := List.exists_cons_of_length_pos (l := bound) (by omega)
  rw [List.length_cons] at hbound
  have hes := harguments (d := (d.atDepth (d.depth + 1)).before (closing :: rest))
    (Nat.le_of_succ_le hallowance) hentered hclosing hinside hclosing
  obtain ⟨depth, hread⟩ := hchain (d := d.atDepth (d.depth + 1)) (Nat.le_of_succ_le hallowance)
    hentered hnext hinside bound
    (by rw [Cursor.length_remaining_before, Cursor.length_remaining_atDepth]; omega)
  refine ⟨depth, ?_⟩
  rw [← Cursor.before_before]
  refine (bind_of_ok (peekKind_before hopening)).trans ?_
  refine (discard_bind_of_ok (advance_before (by simp [hopening]))).trans ?_
  have hdescend := descend_of_hasRoom (c := (d.before (closing :: rest)).before used) hroom
  refine (bind_of_ok hdescend.1).trans ?_
  refine (bind_of_ok hes).trans ?_
  exact (bind_of_ok (expect_before hclosing (by simp))).trans hread

theorem suffixes_member {name : Token} {left e : Expr} (hsign : sign.kind = .dot)
    (hname : name.kind.isProperty = true)
    (hchain : Accepts room inside next rest
      (.suffixes (.member (left.span.through name.span) left name.lexeme) e)) :
    Accepts (room + 1) inside next (sign :: name :: rest) (.suffixes left e) := by
  intro allowance d hallowance hroom hnext hinside bound hbound
  have hentered := (descend_of_hasRoom hroom).2
  simp only [Cursor.length_remaining_before, List.length_cons] at hbound
  obtain ⟨token, bound, rfl⟩ := List.exists_cons_of_length_pos (l := bound) (by omega)
  rw [List.length_cons] at hbound
  obtain ⟨depth, hread⟩ := hchain (d := d.atDepth (d.depth + 1)) (Nat.le_of_succ_le hallowance)
    hentered hnext hinside bound
    (by rw [Cursor.length_remaining_before, Cursor.length_remaining_atDepth]; omega)
  refine ⟨depth, ?_⟩
  refine (bind_of_ok (peekKind_before hsign)).trans ?_
  refine (discard_bind_of_ok (advance_before (by simp [hsign]))).trans ?_
  refine (bind_of_ok (descend_of_hasRoom (c := d.before (name :: rest)) hroom).1).trans ?_
  exact (bind_of_ok (expectProperty_before (d := d.atDepth (d.depth + 1)) hname)).trans hread

theorem suffixed {left e : Expr}
    (hprimary : Accepts room inside (leading rest next) used (.primary left))
    (hchain : Accepts room inside next rest (.suffixes left e)) :
    Accepts room inside next (used ++ rest) (.suffixed e) := by
  intro allowance d hallowance hroom hnext hinside
  obtain ⟨depth, hread⟩ := hchain hallowance hroom hnext hinside _ (Nat.le_refl _)
  rw [← Cursor.before_before]
  have he := hprimary (d := d.before rest) hallowance hroom (by simp [hnext]) hinside
  refine (bind_of_ok he).trans ?_
  exact restoringDepth_of_ok hread rfl

theorem unary {op : UnaryOp} {e : Expr} (hsign : unaryOp? sign.kind = some op)
    (h : Accepts room inside next used (.operand e)) :
    Accepts room inside next (sign :: used)
      (.unary (.unary (sign.span.through e.span) op e)) := by
  intro allowance d hallowance hroom hnext hinside
  have hkind : sign.kind ≠ .endOfText := by
    rintro heq
    rw [heq] at hsign
    cases hsign
  refine (bind_of_ok (peekKind_before rfl)).trans ?_
  rw [hsign]
  refine (bind_of_ok (advance_before hkind)).trans ?_
  exact (bind_of_ok (h hallowance hroom hnext hinside)).trans rfl

theorem unary_none {e : Expr} (h : Accepts room inside next used (.suffixed e))
    (hstart : unaryOp? (leading used next) = none) :
    Accepts room inside next used (.unary e) := by
  intro allowance d hallowance hroom hnext hinside
  have hkind : (d.before used).next.kind = leading used next := by simp [hnext]
  refine (bind_of_ok (peekKind_of_next hkind)).trans ?_
  rw [hstart]
  exact h hallowance hroom hnext hinside

theorem operations_nil {operators : List (TokenKind × Operator)}
    {tighter : List (List (TokenKind × Operator))} {left : Expr}
    (hnext : operators.lookup next = none) :
    Accepts room inside next [] (.operations operators tighter left left) := by
  intro allowance d _ _ hkind _ bound _
  refine ⟨d.depth, ?_⟩
  cases bound with
  | nil => rfl
  | cons token bound =>
      refine (bind_of_ok (peekKind_of_next hkind)).trans ?_
      rw [hnext]
      rfl

theorem operations_cons {operators : List (TokenKind × Operator)}
    {tighter : List (List (TokenKind × Operator))} {op : Operator} {left right e : Expr}
    (hkind : sign.kind ≠ .endOfText) (hsign : operators.lookup sign.kind = some op)
    (hright : Accepts room inside (leading rest next) used (.level tighter right))
    (hchain : Accepts room inside next rest
      (.operations operators tighter (op.join left right) e)) :
    Accepts (room + 1) inside next (sign :: used ++ rest)
      (.operations operators tighter left e) := by
  intro allowance d hallowance hroom hnext hinside bound hbound
  have hentered := (descend_of_hasRoom hroom).2
  simp only [Cursor.length_remaining_before, List.length_cons, List.length_append] at hbound
  obtain ⟨token, bound, rfl⟩ := List.exists_cons_of_length_pos (l := bound) (by omega)
  rw [List.length_cons] at hbound
  have hoperand := hright (d := (d.atDepth (d.depth + 1)).before rest)
    (Nat.le_of_succ_le hallowance) hentered (by rw [Cursor.kind_next_before, ← hnext]; rfl) hinside
  obtain ⟨depth, hread⟩ := hchain (d := d.atDepth (d.depth + 1)) (Nat.le_of_succ_le hallowance)
    hentered hnext hinside bound
    (by rw [Cursor.length_remaining_before, Cursor.length_remaining_atDepth]; omega)
  refine ⟨depth, ?_⟩
  rw [← Cursor.before_before]
  refine (bind_of_ok (peekKind_before rfl)).trans ?_
  rw [hsign]
  refine (discard_bind_of_ok (advance_before hkind)).trans ?_
  refine (bind_of_ok (descend_of_hasRoom (c := (d.before rest).before used) hroom).1).trans ?_
  exact (bind_of_ok hoperand).trans hread

theorem level_cons {operators : List (TokenKind × Operator)}
    {tighter : List (List (TokenKind × Operator))} {left e : Expr}
    (hleft : Accepts room inside (leading rest next) used (.level tighter left))
    (hchain : Accepts room inside next rest (.operations operators tighter left e)) :
    Accepts room inside next (used ++ rest) (.level (operators :: tighter) e) := by
  intro allowance d hallowance hroom hnext hinside
  obtain ⟨depth, hread⟩ := hchain hallowance hroom hnext hinside _ (Nat.le_refl _)
  rw [← Cursor.before_before]
  have he := hleft (d := d.before rest) hallowance hroom (by simp [hnext]) hinside
  refine (bind_of_ok he).trans ?_
  exact restoringDepth_of_ok hread rfl

theorem assignment {e : Expr} (h : Accepts room inside next used (.level operatorLevels e))
    (hnext : next ≠ .assign) : Accepts room inside next used (.assignment e) := by
  intro allowance d hallowance hroom hkind hinside
  refine (bind_of_ok (h hallowance hroom hkind hinside)).trans ?_
  exact (bind_of_ok (accept?_none (hkind ▸ hnext))).trans rfl

theorem assignment_sign {target e : Expr}
    (htarget : Accepts room inside .assign used (.level operatorLevels target))
    (hsign : sign.kind = .assign) (hvalue : Accepts room inside next rest (.expression e))
    (hassignable : target.isAssignable = true) :
    Accepts room inside next (used ++ sign :: rest)
      (.assignment (.assign (target.span.through e.span) target e)) := by
  intro allowance d hallowance hroom hnext hinside
  rw [← Cursor.before_before]
  have he := htarget (d := d.before (sign :: rest)) hallowance hroom hsign hinside
  refine (bind_of_ok he).trans ?_
  refine (bind_of_ok (accept?_before hsign (by simp))).trans ?_
  refine (bind_of_ok (hvalue hallowance hroom hnext hinside)).trans ?_
  rw [if_pos hassignable]
  rfl

theorem optionalSemicolon_of_ended {d : Cursor} {ending : List Token}
    (h : Ended d.next.kind ending) : Deeper.optionalSemicolon (d.before ending) = .ok ⟨⟩ d := by
  have hdiscard : Deeper.optionalSemicolon =
      (discard (accept? .semicolon) >>= fun _ => pure ⟨⟩ : Parser PUnit) := (bind_pure _).symm
  rw [hdiscard]
  cases h with
  | bare hnext => exact (discard_bind_of_ok (accept?_none hnext)).trans rfl
  | marked hmark => exact (discard_bind_of_ok (accept?_before hmark (by simp))).trans rfl

theorem var {name : Token} {ending : List Token} (hfirst : first.kind = .keyword .var)
    (hname : name.kind = .identifier) (hend : Ended next ending)
    (hbare : leading ending next ≠ .assign) :
    Accepts room inside next (first :: name :: ending)
      (.form (.var (first.span.through name.span) name.lexeme none)) := by
  intro allowance d _ _ hnext _
  subst hnext
  have hnone : (d.before ending).next.kind ≠ .assign := by rwa [Cursor.kind_next_before]
  refine (bind_of_ok (peekKind_before hfirst)).trans ?_
  refine (bind_of_ok (advance_before (by simp [hfirst]))).trans ?_
  refine (bind_of_ok (expect_before hname (by simp))).trans ?_
  refine (bind_of_ok (following?_none hnone)).trans ?_
  exact (bind_of_ok (optionalSemicolon_of_ended hend)).trans rfl

theorem var_initial {name : Token} {value ending : List Token} {e : Expr}
    (hfirst : first.kind = .keyword .var) (hname : name.kind = .identifier)
    (hsign : sign.kind = .assign)
    (hvalue : Accepts room inside (leading ending next) value (.expression e))
    (hend : Ended next ending) :
    Accepts room inside next (first :: name :: sign :: value ++ ending)
      (.form (.var (first.span.through e.span) name.lexeme (some e))) := by
  intro allowance d hallowance hroom hnext hinside
  subst hnext
  have he := hvalue (d := d.before ending) hallowance hroom (by simp) hinside
  rw [← Cursor.before_before]
  refine (bind_of_ok (peekKind_before hfirst)).trans ?_
  refine (bind_of_ok (advance_before (by simp [hfirst]))).trans ?_
  refine (bind_of_ok (expect_before hname (by simp))).trans ?_
  refine (bind_of_ok (following?_before hsign (by simp) he)).trans ?_
  exact (bind_of_ok (optionalSemicolon_of_ended hend)).trans rfl

/-- What no other form of statement begins with is read as an expression. -/
theorem anyStatement_eq {deeper : Deeper} {c : Cursor}
    (h : startsForm c.next.kind (c.remaining.tail.headD endOfText).kind = false) :
    deeper.anyStatement c = deeper.expressionStatement c := by
  refine (bind_of_ok (peekKind_of_next rfl)).trans ?_
  generalize c.next.kind = kind at h
  split
  · cases h
  · change (if (c.remaining.tail.headD endOfText).kind = .identifier then _ else _ :
      Parser Stmt) c = _
    rw [if_neg (by simpa [startsForm] using h)]
  · cases h
  · cases h
  · cases h
  · cases h
  · cases h
  · rfl

/-- A function with a name is a statement, not the beginning of one. -/
theorem functionForm {code : FunctionCode} {span : Span}
    (h : Accepts room inside next used (.function code span))
    (hsecond : ∃ t u others, used = t :: u :: others ∧ t.kind = .keyword .function ∧
      u.kind = .identifier) :
    Accepts room inside next used (.form (.function span code)) := by
  intro allowance d hallowance hroom hnext hinside
  obtain ⟨t, u, others, rfl, ht, hu⟩ := hsecond
  refine (bind_of_ok (peekKind_before ht)).trans ?_
  change (if u.kind = .identifier then _ else _ : Parser Stmt) _ = _
  rw [if_pos hu]
  exact (bind_of_ok (h hallowance hroom hnext hinside)).trans rfl

theorem expressionForm {value ending : List Token} {e : Expr}
    (hvalue : Accepts room inside (leading ending next) value (.expression e))
    (hend : Ended next ending)
    (hstart : startsForm (leading (value ++ ending) next) (leading (value ++ ending).tail next) =
      false)
    (hbegins : Opens startsExpression value) :
    Accepts room inside next (value ++ ending) (.form (.expression e.span e)) := by
  intro allowance d hallowance hroom hnext hinside
  subst hnext
  obtain ⟨t, others, rfl, -⟩ := hbegins
  rw [List.cons_append, List.tail_cons, ← Cursor.kind_next_before,
    ← Cursor.kind_second_before d t] at hstart
  refine (anyStatement_eq hstart).trans ?_
  rw [← List.cons_append, ← Cursor.before_before]
  refine (bind_of_ok (hvalue (d := d.before ending) hallowance hroom (by simp) hinside)).trans ?_
  exact (bind_of_ok (optionalSemicolon_of_ended hend)).trans rfl

theorem blockForm {body : List Stmt} {span : Span}
    (h : Accepts room inside next used (.block body span)) (hbegins : Opens (· = .leftBrace) used) :
    Accepts room inside next used (.form (.block span body)) := by
  intro allowance d hallowance hroom hnext hinside
  obtain ⟨t, others, rfl, ht⟩ := hbegins
  refine (bind_of_ok (peekKind_before (of_decide_eq_true ht))).trans ?_
  exact (bind_of_ok (h hallowance hroom hnext hinside)).trans rfl

theorem empty {mark : Token} (hmark : mark.kind = .semicolon) :
    Accepts room inside next [mark] (.form (.empty mark.span)) := by
  intro allowance d _ _ _ _
  refine (bind_of_ok (peekKind_before hmark)).trans ?_
  exact (bind_of_ok (advance_before (by simp [hmark]))).trans rfl

theorem conditional {used branch : List Token} {e : Expr} {s : Stmt}
    (hfirst : first.kind = .keyword .if) (hopening : opening.kind = .leftParen)
    (hcondition : Accepts room inside .rightParen used (.expression e))
    (hclosing : closing.kind = .rightParen)
    (hbranch : Accepts room inside next branch (.statement s)) (hnext : next ≠ .keyword .else) :
    Accepts room inside next (first :: opening :: used ++ closing :: branch)
      (.form (.conditional (first.span.through s.span) e s none)) := by
  intro allowance d hallowance hroom hkind hinside
  have he := condition (d := d.before branch) hallowance hroom hinside hopening hclosing hcondition
  have hs := hbranch hallowance hroom hkind hinside
  have hcursor : d.before (first :: opening :: used ++ closing :: branch) =
      ((d.before branch).before (opening :: used ++ [closing])).before [first] := by
    simp
  rw [hcursor]
  refine (bind_of_ok (peekKind_before hfirst)).trans ?_
  refine (bind_of_ok (advance_before (by simp [hfirst]))).trans ?_
  refine (bind_of_ok he).trans ((bind_of_ok hs).trans ?_)
  exact (bind_of_ok (following?_none (hkind ▸ hnext))).trans rfl

theorem conditional_else {used branch other : List Token} {e : Expr} {s t : Stmt}
    (hfirst : first.kind = .keyword .if) (hopening : opening.kind = .leftParen)
    (hcondition : Accepts room inside .rightParen used (.expression e))
    (hclosing : closing.kind = .rightParen)
    (hbranch : Accepts room inside (.keyword .else) branch (.statement s))
    (hsign : sign.kind = .keyword .else) (hother : Accepts room inside next other (.statement t)) :
    Accepts room inside next (first :: opening :: used ++ closing :: branch ++ sign :: other)
      (.form (.conditional (first.span.through t.span) e s (some t))) := by
  intro allowance d hallowance hroom hkind hinside
  have he := condition (d := (d.before (sign :: other)).before branch) hallowance hroom hinside
    hopening hclosing hcondition
  have hs := hbranch (d := d.before (sign :: other)) hallowance hroom hsign hinside
  have ht := hother hallowance hroom hkind hinside
  have hcursor : d.before (first :: opening :: used ++ closing :: branch ++ sign :: other) =
      (((d.before (sign :: other)).before branch).before (opening :: used ++ [closing])).before
        [first] := by
    simp
  rw [hcursor]
  refine (bind_of_ok (peekKind_before hfirst)).trans ?_
  refine (bind_of_ok (advance_before (by simp [hfirst]))).trans ?_
  refine (bind_of_ok he).trans ((bind_of_ok hs).trans ?_)
  exact (bind_of_ok (following?_before hsign (by simp) ht)).trans rfl

theorem whileLoop {used body : List Token} {e : Expr} {s : Stmt}
    (hfirst : first.kind = .keyword .while) (hopening : opening.kind = .leftParen)
    (hcondition : Accepts room inside .rightParen used (.expression e))
    (hclosing : closing.kind = .rightParen)
    (hbody : Accepts room inside next body (.statement s)) :
    Accepts room inside next (first :: opening :: used ++ closing :: body)
      (.form (.while (first.span.through s.span) e s)) := by
  intro allowance d hallowance hroom hkind hinside
  have he := condition (d := d.before body) hallowance hroom hinside hopening hclosing hcondition
  have hs := hbody hallowance hroom hkind hinside
  have hcursor : d.before (first :: opening :: used ++ closing :: body) =
      ((d.before body).before (opening :: used ++ [closing])).before [first] := by
    simp
  rw [hcursor]
  refine (bind_of_ok (peekKind_before hfirst)).trans ?_
  refine (bind_of_ok (advance_before (by simp [hfirst]))).trans ?_
  exact (bind_of_ok he).trans ((bind_of_ok hs).trans rfl)

/-- The part of a return after its keyword, from within a function body. -/
theorem returnStatement_of_ok {deeper : Deeper} {c middle d : Cursor} {value : Option Expr}
    (hfirst : first.kind = .keyword .return) (hinside : c.inside = true)
    (hvalue : deeper.returnValue c = .ok value middle)
    (hend : Deeper.optionalSemicolon middle = .ok ⟨⟩ d) :
    deeper.anyStatement (c.before [first]) =
      .ok (.return (first.span.through ((value.map Expr.span).getD first.span)) value) d := by
  have hdepth : c.functionDepth ≠ 0 := by simpa [Cursor.inside] using hinside
  refine (bind_of_ok (peekKind_before hfirst)).trans ?_
  refine (bind_of_ok (advance_before (by simp [hfirst]))).trans ?_
  change (if c.functionDepth = 0 then _ else _ : Parser Stmt) c = _
  rw [if_neg hdepth]
  exact (bind_of_ok hvalue).trans ((bind_of_ok hend).trans rfl)

theorem returnForm {ending : List Token} (hfirst : first.kind = .keyword .return)
    (hend : Ended next ending) (hbare : (leading ending next).endsReturn = true) :
    Accepts room true next (first :: ending)
      (.form (.return (first.span.through first.span) none)) := by
  intro allowance d _ _ hnext hinside
  subst hnext
  have hvalue : (Deeper.ofAllowance allowance).returnValue (d.before ending) =
      .ok none (d.before ending) := by
    refine (bind_of_ok (peekKind_of_next (Cursor.kind_next_before ..))).trans ?_
    generalize leading ending d.next.kind = kind at hbare
    cases kind <;> first | rfl | cases hbare
  exact returnStatement_of_ok (c := d.before ending) hfirst hinside hvalue
    (optionalSemicolon_of_ended hend)

theorem returnForm_value {value ending : List Token} {e : Expr}
    (hfirst : first.kind = .keyword .return)
    (hvalue : Accepts room true (leading ending next) value (.expression e))
    (hend : Ended next ending) (hbegins : Opens startsExpression value) :
    Accepts room true next (first :: value ++ ending)
      (.form (.return (first.span.through e.span) (some e))) := by
  intro allowance d hallowance hroom hnext hinside
  subst hnext
  have he := hvalue (d := d.before ending) hallowance hroom (by simp) hinside
  have hcursor : d.before (first :: value ++ ending) =
      ((d.before ending).before value).before [first] := by
    simp
  rw [hcursor]
  have hstart := hbegins.leading (d.before ending).next.kind
  have hreturned : (Deeper.ofAllowance allowance).returnValue ((d.before ending).before value) =
      .ok (some e) (d.before ending) := by
    refine (bind_of_ok (peekKind_of_next (Cursor.kind_next_before ..))).trans ?_
    generalize leading value (d.before ending).next.kind = kind at hstart
    split
    · cases hstart
    · cases hstart
    · cases hstart
    · exact (bind_of_ok he).trans rfl
  exact returnStatement_of_ok (c := (d.before ending).before value) hfirst hinside hreturned
    (optionalSemicolon_of_ended hend)

end Accepts

/-- What is in the grammar is read. -/
theorem Derives.accepts {room : Nat} {inside : Bool} {next : TokenKind} {used : List Token}
    {construct : Construct} (h : Derives room inside next used construct) :
    Accepts room inside next used construct := by
  induction h with
  | statements_nil => exact Accepts.statements_nil
  | statements_cons hfirst _ ih ihrest => exact Accepts.statements_cons hfirst.begins ih ihrest
  | statement _ ih => exact ih.statement
  | var hfirst hname hend hbare => exact Accepts.var hfirst hname hend hbare
  | var_initial hfirst hname hsign _ hend ih => exact Accepts.var_initial hfirst hname hsign ih hend
  | functionForm h hname ih =>
      obtain ⟨t, u, others, rfl, hsecond⟩ := h.exists_second hname
      exact Accepts.functionForm ih ⟨t, u, others, rfl, hsecond⟩
  | expressionForm hvalue hend hstart ih =>
      exact Accepts.expressionForm ih hend hstart hvalue.begins
  | blockForm h ih => exact Accepts.blockForm ih h.begins
  | conditional hfirst hopening _ hclosing _ hnext ih ihbranch =>
      exact Accepts.conditional hfirst hopening ih hclosing ihbranch hnext
  | conditional_else hfirst hopening _ hclosing _ hsign _ ih ihbranch ihother =>
      exact Accepts.conditional_else hfirst hopening ih hclosing ihbranch hsign ihother
  | whileLoop hfirst hopening _ hclosing _ ih ihbody =>
      exact Accepts.whileLoop hfirst hopening ih hclosing ihbody
  | returnForm hfirst hend hbare => exact Accepts.returnForm hfirst hend hbare
  | returnForm_value hfirst hvalue hend ih =>
      exact Accepts.returnForm_value hfirst ih hend hvalue.begins
  | empty hmark => exact Accepts.empty hmark
  | block hopening _ hclosing ih => exact Accepts.block hopening ih hclosing
  | function hfirst hname hopening hparameters hclosing _ ih =>
      exact Accepts.function hfirst hname hopening hparameters hclosing ih
  | expression _ ih => exact ih.expression
  | assignment _ hnext ih => exact Accepts.assignment ih hnext
  | assignment_sign _ hsign _ hassignable ih ihvalue =>
      exact Accepts.assignment_sign ih hsign ihvalue hassignable
  | level_nil _ ih => exact ih
  | level_cons _ _ ih ihchain => exact Accepts.level_cons ih ihchain
  | operations_nil hnext => exact Accepts.operations_nil hnext
  | operations_cons hmem hsign _ _ ih ihchain =>
      exact Accepts.operations_cons (ne_endOfText_of_lookup hmem hsign) hsign ih ihchain
  | operand _ ih => exact ih.operand
  | unary hsign _ ih => exact Accepts.unary hsign ih
  | unary_none _ hstart ih => exact Accepts.unary_none ih hstart
  | suffixed _ _ ih ihchain => exact Accepts.suffixed ih ihchain
  | suffixes_nil hparen hdot => exact Accepts.suffixes_nil hparen hdot
  | suffixes_call hopening _ hclosing _ ih ihchain =>
      exact Accepts.suffixes_call hopening ih hclosing ihchain
  | suffixes_member hsign hname _ ihchain => exact Accepts.suffixes_member hsign hname ihchain
  | number ht hvalue => exact Accepts.number ht hvalue
  | string ht => exact Accepts.string ht
  | name ht => exact Accepts.name ht
  | this ht => exact Accepts.this ht
  | constant ht hvalue => exact Accepts.constant ht hvalue
  | functionExpression h ih => exact Accepts.functionExpression ih h.begins
  | parentheses hopening _ hclosing ih => exact Accepts.parentheses hopening ih hclosing
  | object hopening _ hclosing ih => exact Accepts.object hopening ih hclosing
  | arguments_nil => exact Accepts.arguments_nil
  | arguments h ih => exact Accepts.arguments ih h.begins
  | items_one h hnext ih => exact Accepts.items_one ih hnext h.begins
  | items_cons _ hcomma _ ih ihrest => exact Accepts.items_cons ih hcomma ihrest
  | entries_nil => exact Accepts.entries_nil
  | entries_one hkey hcolon _ hnext ih => exact Accepts.entries_one hkey hcolon ih hnext
  | entries_cons hkey hcolon _ hcomma _ ih ihrest =>
      exact Accepts.entries_cons hkey hcolon ih hcomma ihrest

/-- Tokens that are written for a program are accepted as just that program. -/
theorem programWithin_of_derives {limit : Nat} {front : List Token} {last : Token}
    {body : List Stmt} (hlast : last.kind = .endOfText)
    (h : Derives limit false .endOfText front (.statements body)) :
    programWithin limit (front ++ [last]) = .ok body := by
  have hroom : Cursor.HasRoom ⟨[last], limit, 0, 0⟩ limit := (Nat.zero_add limit).symm
  have hread := h.accepts (Nat.le_refl limit) hroom hlast rfl (· = .endOfText) (front ++ [last])
    (fun kind hkind => (Bool.or_eq_false_iff.mp (not_closes_of_starts kind hkind)).2)
    (by simp [Cursor.next, hlast]) (Nat.le_refl _)
  have hprogram : program ⟨front ++ [last], limit, 0, 0⟩ = .ok body ⟨[last], limit, 0, 0⟩ := hread
  unfold programWithin
  rw [hprogram]

/-- The parsers read the grammar, no more and no less. -/
theorem programWithin_eq_ok_iff {limit : Nat} {front : List Token} {last : Token}
    {body : List Stmt} (hfront : ∀ t ∈ front, t.kind ≠ .endOfText)
    (hlast : last.kind = .endOfText) :
    programWithin limit (front ++ [last]) = .ok body ↔
      Derives limit false .endOfText front (.statements body) :=
  ⟨derives_of_programWithin hfront hlast, programWithin_of_derives hlast⟩

end ScriptHost
