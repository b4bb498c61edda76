import ScriptHost.Proofs.Program.InRange
import ScriptHost.Proofs.Program.Refusal
import ScriptHost.Proofs.Program.Spelling
import ScriptHost.Proofs.Token.Openings

/-!
What a text is compiled to is settled before its first terminator. Neither what follows there nor
what the buffer holds at first makes a difference, and the buffer is left with the last string
literal that was opened.
-/

namespace ScriptHost

/-- Two texts come to the same: the same tokens or the same refusal of one, and under each name the
same unit or the same refusal at the same place, whatever the buffer holds before; and they leave
it alike. -/
structure CompileAlike (first second : String) : Prop where
  tokens : ∀ scratch other : TextBuffer, (tokenize first scratch).1 = (tokenize second other).1
  compiled : ∀ (name : String) (env : Environment) (scratch other : TextBuffer),
    (ScriptUnit.compile name first env scratch).1 = (ScriptUnit.compile name second env other).1
  buffer : ∀ (name : String) (env : Environment) (scratch : TextBuffer),
    (ScriptUnit.compile name first env scratch).2 = (ScriptUnit.compile name second env scratch).2

/-- A string literal breaks off here: at the end of its line or of the text, also behind a
backslash. -/
inductive BreaksOff : List Char → Prop
  | line (after : List Char) : BreaksOff ('\n' :: after)
  | ended : BreaksOff []
  | terminator (after : List Char) : BreaksOff (terminator :: after)
  | escapedEnd : BreaksOff ['\\']
  | escapedTerminator (after : List Char) : BreaksOff ('\\' :: ScriptHost.terminator :: after)

/-- The text of the literal is what is written with escapes before its closing quote, or before the
place where it breaks off. -/
def Opening.Decoded (o : Opening) : Prop :=
  ∃ written after, o.rest = written ++ after ∧ Escaped o.quote o.text.toList written ∧
    if o.body.closed then after = o.quote :: o.body.rest else BreaksOff after

theorem StringBody.exists_escaped_scan (quote : Char) (text : List Char) :
    ∃ written after, text = written ++ after ∧ Escaped quote (scan quote text).content written ∧
      if (scan quote text).closed then after = quote :: (scan quote text).rest
      else BreaksOff after := by
  fun_induction scan quote text with
  | case1 => exact ⟨[], _, rfl, .nil, .ended⟩
  | case2 => exact ⟨[], _, rfl, .nil, .escapedEnd⟩
  | case3 cs => exact ⟨[], _, rfl, .nil, .escapedTerminator cs⟩
  | case4 c cs hend ih =>
      obtain ⟨written, after, rfl, hescaped, hafter⟩ := ih
      exact ⟨'\\' :: c :: written, after, rfl, hescaped.escape hend, hafter⟩
  | case5 c cs hlone hescape hstop =>
      rcases hstop with rfl | rfl
      · exact ⟨[], _, rfl, .nil, .terminator cs⟩
      · exact ⟨[], _, rfl, .nil, .line cs⟩
  | case6 cs hlone hescape hend => exact ⟨[], _, rfl, .nil, rfl⟩
  | case7 c cs hlone hescape hend hquote ih =>
      obtain ⟨written, after, rfl, hescaped, hafter⟩ := ih
      obtain ⟨hterminator, hline⟩ := not_or.mp hend
      exact ⟨c :: written, after, rfl,
        hescaped.plain (ne_backslash hlone hescape) hquote hline hterminator, hafter⟩

theorem Opening.decoded (o : Opening) : o.Decoded := by
  obtain ⟨written, after, hrest, hescaped, hafter⟩ :=
    StringBody.exists_escaped_scan o.quote o.rest
  refine ⟨written, after, hrest, ?_, hafter⟩
  rw [Opening.text, String.toList_ofList]
  exact hescaped

/-- The string literals that a text opens, in their order, as its scan finds them. -/
structure OpensLiterals (source : String) (opened : List Opening) : Prop where
  scans : ∀ scratch : TextBuffer, Scans source.toList 0 (tokenize source scratch).1 opened
  /-- Each stands in the text from its quote on. -/
  stands : ∀ o ∈ opened, (o.quote = '"' ∨ o.quote = '\'') ∧
    Leaves source.toList (o.quote :: o.rest) o.start
  decoded : ∀ o ∈ opened, o.Decoded
  /-- Where the text is scanned to its end, they are its string tokens. -/
  tokens : ∀ (tokens : List Token) (scratch : TextBuffer),
    (tokenize source scratch).1 = .ok tokens → opened.map (fun o => (o.start, o.text)) =
      (tokens.filter (·.kind = .string)).map fun t => (t.span.start, t.lexeme)
  /-- Only the last may be left open, and the text is refused for it. -/
  closed : (∀ o ∈ opened, o.body.closed = true) ∨
    ∃ front o, opened = front ++ [o] ∧ (∀ o ∈ front, o.body.closed = true) ∧
      o.body.closed = false ∧ ∀ scratch, (tokenize source scratch).1 = .error o.refusal
  /-- Compiling leaves the buffer as it was where there is none, and else with the last. -/
  buffer : ∀ (name : String) (env : Environment) (scratch : TextBuffer),
    (opened = [] → (ScriptUnit.compile name source env scratch).2 = scratch) ∧
      ∀ o ∈ opened.getLast?, (ScriptUnit.compile name source env scratch).2.text = o.text

namespace CompileAlike

variable {first second third : String}

theorem refl (source : String) : CompileAlike source source where
  tokens := tokenize_fst_eq source
  compiled name env := ScriptUnit.compile_fst_eq name source env
  buffer _ _ _ := rfl

theorem symm (h : CompileAlike first second) : CompileAlike second first where
  tokens scratch other := (h.tokens other scratch).symm
  compiled name env scratch other := (h.compiled name env other scratch).symm
  buffer name env scratch := (h.buffer name env scratch).symm

theorem trans (h : CompileAlike first second) (h' : CompileAlike second third) :
    CompileAlike first third where
  tokens scratch other := (h.tokens scratch .empty).trans (h'.tokens .empty other)
  compiled name env scratch other :=
    (h.compiled name env scratch .empty).trans (h'.compiled name env .empty other)
  buffer name env scratch := (h.buffer name env scratch).trans (h'.buffer name env scratch)

end CompileAlike

/-- The place of a refusal is counted in the text before it. -/
theorem position?_append_of_refused {source : String} {scratch : TextBuffer} {d : Diagnostic}
    (h : (programOfSource source scratch).1 = .error d) (after : List Char) :
    d.position? (source.toList ++ after) = d.position? source.toList := by
  obtain ⟨span, hspan, hwithin⟩ := within_of_refused h
  rw [Diagnostic.position?, Diagnostic.position?, hspan]
  exact congrArg some (Position.walk_append_of_le _ _ (hwithin.le.trans hwithin.stop_le))

theorem tokenize_append_terminator {source : String} (hsource : terminator ∉ source.toList)
    (after : String) (scratch : TextBuffer) :
    tokenize (source ++ String.singleton terminator ++ after) scratch =
      tokenize (source ++ String.singleton terminator) scratch := by
  obtain ⟨result, -, hresult⟩ := scanFrom_terminator 0 scratch hsource
  have hwhole : (source ++ String.singleton terminator ++ after).toList =
      source.toList ++ terminator :: after.toList := by simp
  rw [tokenize, tokenize, hwhole, toList_terminated, hresult, hresult]

/-- What follows the first terminator of a text makes no difference. The text up to it is refused
where it is refused with more behind it, so the place is the same as well. -/
theorem compileAlike_append_terminator {source : String} (hsource : terminator ∉ source.toList)
    (after : String) :
    CompileAlike (source ++ String.singleton terminator ++ after)
      (source ++ String.singleton terminator) where
  tokens scratch other := by
    rw [tokenize_append_terminator hsource]
    exact tokenize_fst_eq _ scratch other
  compiled name env scratch other := by
    have hprogram : (programOfSource (source ++ String.singleton terminator ++ after) .empty).1 =
        (programOfSource (source ++ String.singleton terminator) .empty).1 := by
      rw [programOfSource, programOfSource, tokenize_append_terminator hsource]
    rw [ScriptUnit.compile_fst name _ env scratch .empty,
      ScriptUnit.compile_fst name _ env other .empty, hprogram]
    cases hresult : (programOfSource (source ++ String.singleton terminator) .empty).1 with
    | ok body => rfl
    | error d =>
        have hplace := position?_append_of_refused hresult after.toList
        rw [← String.toList_append] at hplace
        dsimp only
        rw [hplace]
  buffer name env scratch := by
    rw [ScriptUnit.compile_snd, ScriptUnit.compile_snd, tokenize_append_terminator hsource]

theorem exists_opensLiterals (source : String) : ∃ opened, OpensLiterals source opened := by
  obtain ⟨opened, hscans⟩ := exists_scans source.toList 0 .empty
  have hscan (scratch : TextBuffer) : tokenize source scratch = _ := hscans.scanFrom_eq scratch
  refine ⟨opened, fun scratch => ?_, fun o ho => ?_, fun o _ => o.decoded,
    fun tokens scratch htokens => ?_, ?_, fun name env scratch => ⟨?_, fun o ho => ?_⟩⟩
  · rw [hscan]
    exact hscans
  · obtain ⟨hquote, width, hstart, hleaves⟩ := hscans.stands o ho
    rw [hstart, Nat.zero_add]
    exact ⟨hquote, hleaves⟩
  · rw [hscan] at htokens
    exact (htokens ▸ hscans).tokens
  · rcases hscans.closed with hclosed | ⟨front, o, hopened, hfront, ho, hresult⟩
    · exact .inl hclosed
    · refine .inr ⟨front, o, hopened, hfront, ho, fun scratch => ?_⟩
      rw [hscan]
      exact hresult
  · rintro rfl
    rw [ScriptUnit.compile_snd, hscan]
    rfl
  · rw [ScriptUnit.compile_snd, hscan, text_foldl_assign, ho]
    rfl

/-- Of two texts with the same beginning up to a first terminator, all that is compiled is the same
from any two buffers. A text opens some string literals, and leaves the buffer with the last of
them. -/
theorem compileAlike_and_opensLiterals :
    (∀ source after after' : String, terminator ∉ source.toList →
      CompileAlike (source ++ String.singleton terminator ++ after)
        (source ++ String.singleton terminator ++ after')) ∧
      ∀ source : String, CompileAlike source source ∧ ∃ opened, OpensLiterals source opened := by
  refine ⟨fun source after after' hsource => ?_, fun source => ⟨.refl source, ?_⟩⟩
  · exact (compileAlike_append_terminator hsource after).trans
      (compileAlike_append_terminator hsource after').symm
  · exact exists_opensLiterals source

/-- A text that breaks off within its second string literal. -/
def unfinishedText : String := "f('é', \"b\\n"

/-- The literal is not closed by a quote behind the terminator. -/
theorem compileAlike_and_opensLiterals_unfinished :
    terminator ∉ unfinishedText.toList ∧
      CompileAlike (unfinishedText ++ String.singleton terminator ++ "\");")
        (unfinishedText ++ String.singleton terminator ++ "/* 'c") ∧
      ∃ opened, OpensLiterals unfinishedText opened ∧
        opened.getLast?.map Opening.text = some "b\n" := by
  have hends : terminator ∉ unfinishedText.toList := by decide +kernel
  have hbuffer : (tokenize unfinishedText .empty).2.text = "b\n" := by decide +kernel
  obtain ⟨halike, hopens⟩ := compileAlike_and_opensLiterals
  obtain ⟨-, opened, hopened⟩ := hopens unfinishedText
  refine ⟨hends, halike _ _ _ hends, opened, hopened, ?_⟩
  obtain ⟨hnone, hlast⟩ := hopened.buffer "" (.root ⟨0⟩) .empty
  rw [ScriptUnit.compile_snd] at hnone hlast
  cases hget : opened.getLast? with
  | none =>
      rw [hnone (List.getLast?_eq_none_iff.mp hget)] at hbuffer
      exact absurd hbuffer (by decide)
  | some o => exact congrArg some ((hlast o hget).symm.trans hbuffer)

end ScriptHost
