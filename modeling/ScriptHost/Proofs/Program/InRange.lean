import ScriptHost.Proofs.Program.Between
import ScriptHost.Proofs.Program.Enclosure
import ScriptHost.Proofs.Token.Cuts

/-!
Compiling stays in range. Whatever the source text, each lexeme is cut out of it where it can be,
the spans of its tokens, of the constructs it is read as and of what is refused in it lie within it
and cut no character, the parsers stop within its tokens, and a refusal has a line and a column.
-/

namespace ScriptHost

open ScriptHost.Parser

variable {source : List Char} {tokens : List Token}

/-- The spans of tokens lie within the text. -/
theorem within_of_tokenize {source : String} {scratch : TextBuffer}
    (h : (tokenize source scratch).1 = .ok tokens) : ∀ t ∈ tokens, t.span.Within source.toList := by
  obtain ⟨front, stop, rfl, hkinds, hstop, hscan⟩ := scanFrom_scannable h
  intro t ht
  rcases List.mem_append.mp ht with hfront | hlast
  · obtain ⟨piece, hcut, -⟩ := exists_slice?_of_scannable hscan hfront (hkinds t hfront)
    exact within_of_slice? hcut
  · rw [List.mem_singleton.mp hlast]
    exact within_of_slice? (slice?_stop hstop)

theorem exists_end_of_tokenize {source : String} {scratch : TextBuffer}
    (h : (tokenize source scratch).1 = .ok tokens) : ∃ t ∈ tokens, t.kind = .endOfText := by
  obtain ⟨front, stop, rfl, -⟩ := scanFrom_scannable h
  exact ⟨.ofEnd stop, by simp, rfl⟩

namespace Tree

variable {t u : Tree} {bodies : Nat}

theorem Between.holds (h : t.Between tokens) (hholds : t.Holds bodies u) : u.Between tokens := by
  induction hholds with
  | here => exact h
  | part hpart _ _ ih => exact ih (h.part hpart)
  | body hpart _ _ ih => exact ih (h.part hpart)

theorem Spaced.holds (h : t.Spaced) (hholds : t.Holds bodies u) : u.Spaced := by
  induction hholds with
  | here => exact h
  | part hpart _ _ ih => exact ih (h.row.of_mem hpart).1
  | body hpart _ _ ih => exact ih (h.row.of_mem hpart).1

end Tree

/-- A span that is not empty and extends from tokens to tokens lies where these do. -/
theorem Span.Between.within {span : Span} (h : span.Between tokens) (hle : span.start ≤ span.stop)
    (htokens : ∀ t ∈ tokens, t.span.Within source) : span.Within source := by
  obtain ⟨first, hfirst, hstart⟩ := h.start
  obtain ⟨last, hlast, hstop⟩ := h.stop
  exact ⟨hle, hstop ▸ (htokens last hlast).stop_le, hstart ▸ (htokens first hfirst).start,
    hstop ▸ (htokens last hlast).stop⟩

/-- The constructs of a program lie within its text. -/
theorem within_of_lies {source : String} {scratch : TextBuffer} {body : List Stmt} {bodies : Nat}
    {t : Tree} (h : (programOfSource source scratch).1 = .ok body) (hlies : Lies body bodies t) :
    t.span.Within source.toList := by
  obtain ⟨s, hs, hholds⟩ := hlies
  obtain ⟨last, hrow⟩ := exists_row_of_programOfSource h
  have hspaced := (hrow.of_mem (List.mem_map_of_mem hs)).1.holds hholds
  change (tokenize source scratch).1 >>= programOfTokens = .ok body at h
  cases htokens : (tokenize source scratch).1 with
  | error d =>
      rw [htokens] at h
      cases h
  | ok tokens =>
      rw [htokens] at h
      have hbetween := between_of_programWithin (exists_end_of_tokenize htokens) h s hs
      exact (hbetween.holds hholds).span.within (Nat.le_of_lt hspaced.lt)
        (within_of_tokenize htokens)

/-- A refusal, by the scanner or by a parser, is placed, and that within the text. -/
theorem within_of_refused {source : String} {scratch : TextBuffer} {d : Diagnostic}
    (h : (programOfSource source scratch).1 = .error d) :
    ∃ span, d.span? = some span ∧ span.Within source.toList := by
  change (tokenize source scratch).1 >>= programOfTokens = .error d at h
  cases htokens : (tokenize source scratch).1 with
  | error e =>
      rw [htokens] at h
      cases h
      obtain ⟨span, piece, hspan, hstands⟩ := standsAt_of_scanFrom htokens
      exact ⟨span, hspan, hstands.within⟩
  | ok tokens =>
      rw [htokens] at h
      obtain ⟨-, t, ht, hspan⟩ := refused_of_programWithin (exists_end_of_tokenize htokens) h
      exact ⟨t.span, hspan, within_of_tokenize htokens t ht⟩

theorem position?_of_refused {source : String} {scratch : TextBuffer} {d : Diagnostic}
    (h : (programOfSource source scratch).1 = .error d) (text : List Char) :
    d.position? text = some (d.position text) := by
  obtain ⟨span, hspan, -⟩ := within_of_refused h
  exact Diagnostic.position?_of_span? hspan text

/-- Each of the parsers, and of those built over them for one level, stops within the token list
wherever in it it begins. -/
structure Deeper.InRange (tokens : List Token) (deeper : Deeper) : Prop where
  statement : Stays tokens deeper.statement fun _ => True
  anyStatement : Stays tokens deeper.anyStatement fun _ => True
  varDeclaration : Stays tokens deeper.varDeclaration fun _ => True
  conditional : Stays tokens deeper.conditional fun _ => True
  whileLoop : Stays tokens deeper.whileLoop fun _ => True
  condition : Stays tokens deeper.condition fun _ => True
  returnStatement : Stays tokens deeper.returnStatement fun _ => True
  expressionStatement : Stays tokens deeper.expressionStatement fun _ => True
  block : Stays tokens deeper.block fun _ => True
  function : Stays tokens deeper.function fun _ => True
  expression : Stays tokens deeper.expression fun _ => True
  assignment : Stays tokens deeper.assignment fun _ => True
  level : ∀ groups, Stays tokens (deeper.level groups) fun _ => True
  operand : Stays tokens deeper.operand fun _ => True
  unary : Stays tokens deeper.unary fun _ => True
  suffixed : Stays tokens deeper.suffixed fun _ => True
  primary : Stays tokens deeper.primary fun _ => True
  entries : ∀ bound, Stays tokens (deeper.entries bound) fun _ => True

theorem Deeper.Stay.inRange {deeper : Deeper} (h : deeper.Stay tokens) :
    deeper.InRange tokens where
  statement := h.statement.forget
  anyStatement := h.anyStatement.forget
  varDeclaration := h.varDeclaration.forget
  conditional := h.conditional.forget
  whileLoop := h.whileLoop.forget
  condition := h.condition.forget
  returnStatement := h.returnStatement.forget
  expressionStatement := h.expressionStatement.forget
  block := h.block.forget
  function := h.function.forget
  expression := h.expression.forget
  assignment := h.assignment.forget
  level groups := (h.level groups).forget
  operand := h.operand.forget
  unary := h.unary.forget
  suffixed := h.suffixed.forget
  primary := h.primary.forget
  entries bound := (h.entries bound).forget

/-- A parse of the tokens begins in front of them, and every parser stops within them; the token
that a cursor within them comes to is the one with its index. -/
structure ParsesInRange (tokens : List Token) : Prop where
  start : ∀ limit, Cursor.On tokens ⟨tokens, limit, 0, 0⟩
  program : Stays tokens program fun _ => True
  parsers : ∀ allowance, (Deeper.ofAllowance allowance).InRange tokens
  index : ∀ c, Cursor.On tokens c →
    c.index tokens < tokens.length ∧ tokens[c.index tokens]? = some c.next

/-- Everything that compiling the text cuts out of it or takes by its index is there, and everything
it places is placed within the text. -/
structure CompilesInRange (source : String) (scratch : TextBuffer) : Prop where
  lexemes : cutFrom? source.toList source.toList 0 scratch = some (tokenize source scratch)
  tokens : ∀ tokens, (tokenize source scratch).1 = .ok tokens →
    ∀ t ∈ tokens, t.span.Within source.toList
  constructs : ∀ body, (programOfSource source scratch).1 = .ok body →
    ∀ bodies t, Lies body bodies t → t.span.Within source.toList
  refusals : ∀ d, (programOfSource source scratch).1 = .error d →
    ∃ span, d.span? = some span ∧ span.Within source.toList
  locations : ∀ name env e, (ScriptUnit.compile name source env scratch).1 = .error e →
    ∃ span line column, e.diagnostic.span? = some span ∧
      lineColumn? source.toList span = some ⟨line, column⟩ ∧
      e.location = name ++ ":" ++ toString line ++ ":" ++ toString column
  parsers : ∀ tokens, (tokenize source scratch).1 = .ok tokens → ParsesInRange tokens

/-- Compiling stays in range, whatever the text. -/
theorem compiles_in_range (source : String) (scratch : TextBuffer) :
    CompilesInRange source scratch := by
  refine ⟨cutFrom?_eq (List.nil_append _).symm rfl,
    fun tokens htokens => within_of_tokenize htokens,
    fun body hbody bodies t hlies => within_of_lies hbody hlies, fun d hd => within_of_refused hd,
    fun name env e he => ?_, fun tokens htokens => ?_⟩
  · rw [ScriptUnit.compile_fst name source env scratch scratch] at he
    cases hprogram : (programOfSource source scratch).1 with
    | ok body =>
        rw [hprogram] at he
        cases he
    | error d =>
        rw [hprogram] at he
        cases he
        -- without a span the location would be the name alone
        obtain ⟨span, hspan, hwithin⟩ := within_of_refused hprogram
        refine ⟨span, _, _, hspan, lineColumn?_eq hwithin.start, ?_⟩
        rw [CompileError.location, Diagnostic.position?, hspan]
        rfl
  · exact ⟨fun limit => Cursor.on_start (exists_end_of_tokenize htokens),
      (stays_program tokens).forget, fun n => (Deeper.stay_ofAllowance tokens n).inRange,
      fun c hc => hc.getElem?_index⟩

end ScriptHost
