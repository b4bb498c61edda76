import ScriptHost.Proofs.Session.Evaluation
import ScriptHost.Proofs.Session.Outcome
import ScriptHost.Proofs.Token.Literal

/-!
What a session answers for the literal of a string. The text is one expression statement, and a
session at rest evaluates it to the string, in the same few steps whatever the string is. Nothing
else comes of it. A session that allows no call at all evaluates nothing, this text included.
-/

namespace ScriptHost

variable {quote : Char}

/-- A literal is a program of one statement. -/
theorem programOfSource_literalOf (hquote : quote = '"' ∨ quote = '\'') (text : String)
    (scratch : TextBuffer) :
    (programOfSource (literalOf quote text) scratch).1 =
      .ok [.expression ⟨0, byteLength (literalOf quote text).toList⟩
        (.literal ⟨0, byteLength (literalOf quote text).toList⟩ (.string text))] := by
  unfold programOfSource
  dsimp only
  rw [tokenize_literalOf hquote]
  rfl

theorem Situation.run_of_next {last : Phrase} {hosts : HostTable} {s t : Situation last}
    (hstep : s.step hosts = .next t) (fuel : Nat) :
    s.run hosts (fuel + 1) = t.run hosts fuel := by
  rw [run, hstep]

/-- A body that is one literal gives the value of the literal to the frame it was begun from. -/
theorem Situation.run_inUnit_literal (hosts : HostTable) (m : Machine) (environment : Environment)
    (receiver : Value) (span : Span) (literal : Literal) (hnesting : m.nesting = 0) :
    (inUnit m environment receiver [.expression span (.literal span literal)]).run hosts 10 =
      some (m.returned environment receiver, .value literal.value) := by
  obtain ⟨store, registry, global, home, this, depth, nesting, limit, trap, scratch, output⟩ := m
  -- Only the entering of the statement and of the literal looks at the machine, and both have room.
  obtain rfl : nesting = 0 := hnesting
  rfl

namespace Machine

variable {m : Machine}

/-- A machine at rest runs a unit that is one literal to its value, and is then as it was. -/
theorem runUnit_of_literal (hosts : HostTable) (name : String) (span : Span) (literal : Literal)
    (hrest : m.AtRest) (hroom : 0 < m.maxCallDepth) (more : Nat) :
    m.runUnit hosts (11 + more)
      (.ofBody name [.expression span (.literal span literal)] m.globalEnvironment) =
        some (m, .value literal.value) := by
  have hdepth : m.running.depth < m.running.maxCallDepth := lt_of_eq_of_lt hrest.depth hroom
  have hentered := (Situation.run_of_next (Situation.step_enteringUnit name hdepth) 10).trans
    (Situation.run_inUnit_literal hosts m.running.atTop _ _ span literal hrest.nesting)
  have hreturned :
      { m.running.atTop.returned m.environment m.receiver with trap := .idle } = m := by
    rw [← hrest.trap]
    rfl
  have hrun := Situation.run_add hentered more
  rw [runUnit_of_unarmed (congrArg Trap.armed hrest.trap)]
  exact (congrArg (Option.map _) hrun).trans
    (congrArg (fun n => some (n, Ending.value literal.value)) hreturned)

/-- A machine at rest that allows no call fails to run any unit, and is then as it was. -/
theorem runUnit_of_full (hosts : HostTable) (name : String) (body : List Stmt)
    (hrest : m.AtRest) (hfull : ¬ 0 < m.maxCallDepth) (more : Nat) :
    m.runUnit hosts (2 + more) (.ofBody name body m.globalEnvironment) =
      some (m, .fault ⟨.range, stackExceeded, none⟩) := by
  have hdepth : ¬ m.running.depth < m.running.maxCallDepth := by
    rwa [show m.running.depth = 0 from hrest.depth]
  have hfailed : (Situation.enteringUnit m.running name body).run hosts 2 =
      some (m.running, .fault ⟨.range, stackExceeded, none⟩) :=
    Situation.run_of_next (Situation.step_enteringUnit_of_full hosts name body hdepth rfl) 1
  have hreturned : { m.running with trap := .idle } = m := by
    rw [← hrest.trap]
    rfl
  have hrun := Situation.run_add hfailed more
  rw [runUnit_of_unarmed (congrArg Trap.armed hrest.trap)]
  exact (congrArg (Option.map _) hrun).trans
    (congrArg (fun n => some (n, Ending.fault ⟨.range, stackExceeded, none⟩)) hreturned)

end Machine

namespace Session

variable {s : Session}

/-- What a session at rest answers for the literal of a string: the string, and if it allows no call
a fault. -/
theorem evaluate_literalOf (hquote : quote = '"' ∨ quote = '\'') (text : String)
    (hrest : s.machine.AtRest) (more : Nat) :
    s.evaluate (11 + more) (literalOf quote text) =
      if 0 < s.machine.maxCallDepth then
        .ok (some (.string text), { s with
          machine := (s.machine.compile stringUnitName (literalOf quote text)).2
          pending := none })
      else
        .ok (none, report { s with
          machine := (s.machine.compile stringUnitName (literalOf quote text)).2
          pending := none } (Fault.display ⟨.range, Machine.stackExceeded, none⟩)) := by
  have haccepted := programOfSource_literalOf hquote text .empty
  have hcompiled : (s.machine.compile stringUnitName (literalOf quote text)).2.AtRest :=
    hrest.of_context_eq (m := s.machine) rfl
  have hglobal : (s.machine.compile stringUnitName (literalOf quote text)).2.globalEnvironment =
      s.machine.globalEnvironment := rfl
  set span : Span := ⟨0, byteLength (literalOf quote text).toList⟩
  rw [evaluate_eq_runLoaded, load, loadNamed_of_ok haccepted, runLoaded, runPending]
  by_cases hroom : 0 < s.machine.maxCallDepth
  · have hrun := Machine.runUnit_of_literal s.hosts stringUnitName span (.string text)
      hcompiled hroom more
    rw [hglobal] at hrun
    simp only [if_pos hroom, hrun, Literal.value]
  · have hrun := Machine.runUnit_of_full s.hosts stringUnitName
      [.expression span (.literal span (.string text))] hcompiled hroom (9 + more)
    rw [hglobal, ← Nat.add_assoc] at hrun
    simp only [if_neg hroom, hrun]

/-- Every string has a literal between quotes of either kind. It is scanned to one token that
denotes the string and spans the whole text, and a session that allows a call at all evaluates it to
the string, changing nothing but its buffer and its pending unit. Conversely every string token of a
text is written with escapes between quotes, and the literal of what it denotes is scanned to that
again. -/
theorem literal_denotes (hquote : quote = '"' ∨ quote = '\'') :
    (∀ (text : String) (scratch : TextBuffer),
      (tokenize (literalOf quote text) scratch).1 =
        .ok [⟨.string, text, ⟨0, byteLength (literalOf quote text).toList⟩⟩,
          .ofEnd (byteLength (literalOf quote text).toList)]) ∧
    (∀ (text : String) (s : Session), s.Reachable → ∀ more : Nat,
      s.evaluate (11 + more) (literalOf quote text) =
        if 0 < s.machine.maxCallDepth then
          .ok (some (.string text), { s with
            machine := (s.machine.compile stringUnitName (literalOf quote text)).2
            pending := none })
        else
          .ok (none, report { s with
            machine := (s.machine.compile stringUnitName (literalOf quote text)).2
            pending := none } (Fault.display ⟨.range, Machine.stackExceeded, none⟩))) ∧
    ∀ (source : String) (scratch again : TextBuffer) (tokens : List Token) (t : Token),
      (tokenize source scratch).1 = .ok tokens → t ∈ tokens → t.kind = .string →
        (∃ other written, (other = '"' ∨ other = '\'') ∧
          slice? source.toList t.span = some (other :: written ++ [other]) ∧
          Escaped other t.lexeme.toList written) ∧
        (tokenize (literalOf quote t.lexeme) again).1 =
          .ok [⟨.string, t.lexeme, ⟨0, byteLength (literalOf quote t.lexeme).toList⟩⟩,
            .ofEnd (byteLength (literalOf quote t.lexeme).toList)] := by
  refine ⟨tokenize_literalOf hquote, ?_, ?_⟩
  · intro text s hreachable more
    exact evaluate_literalOf hquote text hreachable.atRest more
  · intro source scratch again tokens t htokens ht hkind
    exact ⟨exists_escaped_of_tokenize htokens ht hkind, tokenize_literalOf hquote t.lexeme again⟩

/-- A string that holds both quotes, a backslash, a newline, a terminator and a character of two
bytes, and a text in which every character of a string is escaped, a real newline among them. -/
theorem literal_denotes_marked_characters :
    literalOf '"' "\"'\\\n\x00é" = "\"\\\"'\\\\\\n\\0é\"" ∧
    (tokenize "\"\\\"'\\\\\\n\\0é\"" .empty).1 =
      .ok [⟨.string, "\"'\\\n\x00é", ⟨0, 13⟩⟩, .ofEnd 13] ∧
    (∃ t, blank.evaluate 11 "\"\\\"'\\\\\\n\\0é\"" = .ok (some (.string "\"'\\\n\x00é"), t)) ∧
    ∃ tokens t, (tokenize "x = '\\é\\\"\\\n\\q'" .empty).1 = .ok tokens ∧ t ∈ tokens ∧
      t.lexeme = "é\"\nq" ∧
      (tokenize (literalOf '"' t.lexeme) .empty).1 =
        .ok [⟨.string, t.lexeme, ⟨0, 9⟩⟩, .ofEnd 9] := by
  have hdenotes := literal_denotes (.inl rfl : '"' = '"' ∨ '"' = '\'')
  have hliteral : literalOf '"' "\"'\\\n\x00é" = "\"\\\"'\\\\\\n\\0é\"" := by decide +kernel
  refine ⟨hliteral, ?_, ?_, ?_⟩
  · have htokens := hdenotes.1 "\"'\\\n\x00é" .empty
    rwa [hliteral] at htokens
  · have hvalue := hdenotes.2.1 "\"'\\\n\x00é" blank reachable_blank 0
    rw [hliteral] at hvalue
    exact ⟨_, hvalue⟩
  · have htokens : (tokenize "x = '\\é\\\"\\\n\\q'" .empty).1 =
        .ok [⟨.identifier, "x", ⟨0, 1⟩⟩, ⟨.assign, "=", ⟨2, 3⟩⟩, ⟨.string, "é\"\nq", ⟨4, 15⟩⟩,
          .ofEnd 15] := by
      decide +kernel
    refine ⟨_, ⟨.string, "é\"\nq", ⟨4, 15⟩⟩, htokens, by simp, rfl, ?_⟩
    exact (hdenotes.2.2 _ _ .empty _ ⟨.string, "é\"\nq", ⟨4, 15⟩⟩ htokens (by simp) rfl).2

end Session

end ScriptHost
