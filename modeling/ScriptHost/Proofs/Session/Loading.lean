import ScriptHost.Proofs.Program.InRange
import ScriptHost.Proofs.Program.Refusal
import ScriptHost.Proofs.Session.Operation
import ScriptHost.Proofs.Token.Scratch

/-!
What comes of loading a text, from a string and from a file that holds it. A file is read up to a
terminator that is put after its contents, and where a text is refused at its very end the report
counts that terminator as a column.
-/

namespace ScriptHost

variable {source : String} {body : List Stmt} {d : Diagnostic}

namespace Machine

variable {m : Machine}

theorem compile_fst_of_ok (name : String) (h : (programOfSource source .empty).1 = .ok body) :
    (m.compile name source).1 = .ok (.ofBody name body m.globalEnvironment) := by
  have hcompile := ScriptUnit.compile_fst name source m.globalEnvironment m.scratch .empty
  rw [h] at hcompile
  exact hcompile

theorem compile_fst_of_error (name : String) {d : Diagnostic}
    (h : (programOfSource source .empty).1 = .error d) :
    (m.compile name source).1 = .error ⟨name, some (d.position source.toList), d⟩ := by
  have hcompile := ScriptUnit.compile_fst name source m.globalEnvironment m.scratch .empty
  rw [h] at hcompile
  rw [← position?_of_refused h]
  exact hcompile

end Machine

namespace Session

variable {s : Session}

theorem loadNamed_of_ok {name : String} (h : (programOfSource source .empty).1 = .ok body) :
    s.loadNamed name source = (.success, { s with
      machine := (s.machine.compile name source).2
      pending := some (.ofBody name body s.machine.globalEnvironment) }) := by
  unfold loadNamed
  dsimp only
  rw [Machine.compile_fst_of_ok name h]

theorem loadNamed_of_error {name : String} (h : (programOfSource source .empty).1 = .error d) :
    s.loadNamed name source = (.failure, report
      { s with machine := (s.machine.compile name source).2 }
      (CompileError.display ⟨name, some (d.position source.toList), d⟩)) := by
  unfold loadNamed
  dsimp only
  rw [Machine.compile_fst_of_error name h]
  rfl

theorem diagnostics_report_of_eq (machine : Machine) (message : String) :
    (report { s with machine := machine } message).diagnostics = (s.report message).diagnostics := by
  unfold report
  dsimp only
  split <;> rfl

end Session

/-- The text of a file is what the file holds and a terminator. -/
theorem sourceOfFile_toUTF8 (path : String) (hsize : source.utf8ByteSize < TextBuffer.maxCapacity) :
    sourceOfFile path (.ok source.toUTF8) = .ok (source ++ String.singleton terminator) := by
  have hallocate : TextBuffer.allocate? source.toUTF8.size = some ⟨"", true⟩ := if_pos hsize
  have htaken : source.toUTF8.extract 0 (min source.toUTF8.size source.toUTF8.size) =
      source.toUTF8 := by
    rw [Nat.min_self, ByteArray.extract_zero_size]
  have hdecode : String.fromUTF8? source.toUTF8 = some source := dif_pos source.isValidUTF8
  unfold sourceOfFile
  dsimp only
  rw [hallocate]
  dsimp only
  unfold TextBuffer.fill
  dsimp only
  rw [htaken, hdecode]
  dsimp only
  rw [if_pos rfl]
  simp [TextBuffer.terminate]

/-- Whether a text is refused at its very end, where no terminator ends it before. -/
def RefusedAtEnd (source : String) (d : Diagnostic) : Prop :=
  terminator ∉ source.toList ∧ d.span.start = byteLength source.toList

instance (source : String) (d : Diagnostic) : Decidable (RefusedAtEnd source d) :=
  inferInstanceAs (Decidable (_ ∧ _))

/-- Where a refusal stands once a terminator follows the text. -/
def terminatedPosition (source : String) (d : Diagnostic) : Position :=
  if RefusedAtEnd source d then
    ⟨(d.position source.toList).line, (d.position source.toList).column + 1⟩
  else d.position source.toList

theorem position_terminated {e : Diagnostic} (hsame : e.span.start = d.span.start)
    (hle : d.span.start ≤ byteLength source.toList) (hbefore : ¬ RefusedAtEnd source d) :
    e.position (source.toList ++ [terminator]) = terminatedPosition source d := by
  rw [terminatedPosition, if_neg hbefore, Diagnostic.position, hsame]
  exact Position.walk_append_of_le _ _ hle

theorem position_terminated_of_refusedAtEnd {e : Diagnostic}
    (hend : e.span.start = byteLength source.toList + 1) (hat : RefusedAtEnd source d) :
    e.position (source.toList ++ [terminator]) = terminatedPosition source d := by
  rw [terminatedPosition, if_pos hat, Diagnostic.position, hend, Position.ofOffset_terminated,
    Diagnostic.position, hat.2]

/-- A text before a terminator is refused for the same reason, at the same place unless that is the
very end. -/
theorem refused_terminated (h : (programOfSource source .empty).1 = .error d) :
    ∃ e : Diagnostic, (programOfSource (source ++ String.singleton terminator) .empty).1 = .error e ∧
      e.message = d.message ∧
      e.position (source ++ String.singleton terminator).toList = terminatedPosition source d := by
  have hlist : (source ++ String.singleton terminator).toList = source.toList ++ [terminator] := by
    simp
  by_cases hends : terminator ∈ source.toList
  · obtain ⟨front, after, hsplit, hfront⟩ := List.eq_append_cons_of_mem hends
    have hsource : (String.ofList front).toList = front := String.toList_ofList
    rw [← hsource] at hfront hsplit
    obtain ⟨result, hsame, hwhole⟩ := programOfSource_terminated hfront .empty
    have hrefused := (hwhole source after hsplit).symm.trans h
    have hlonger : (source ++ String.singleton terminator).toList =
        (String.ofList front).toList ++ terminator :: (after ++ [terminator]) := by
      rw [hlist, hsplit, List.append_assoc, List.cons_append]
    refine ⟨d, (hwhole _ _ hlonger).trans hrefused, rfl, ?_⟩
    have hstart : d.span.start ≤ byteLength source.toList := by
      have hone : terminator.utf8Size = 1 := rfl
      rw [hsplit, byteLength_append, byteLength, hone]
      rw [hrefused] at hsame
      generalize (programOfSource (String.ofList front) .empty).1 = alone at hsame
      cases hsame with
      | error hkind hmessage hstart =>
          rcases hstart with ⟨hlt, hequal⟩ | ⟨-, hequal⟩ <;> omega
    have hbefore : ¬ RefusedAtEnd source d := fun hat => hat.1 hends
    rw [hlist]
    exact position_terminated rfl hstart hbefore
  · obtain ⟨result, hsame, hwhole⟩ := programOfSource_terminated hends .empty
    rw [hwhole _ [] hlist]
    rw [h] at hsame
    cases hsame with
    | @error _ e hkind hmessage hstart =>
        refine ⟨e, rfl, hmessage, ?_⟩
        rw [hlist]
        rcases hstart with ⟨hlt, hequal⟩ | ⟨hend, hend'⟩
        · have hbefore : ¬ RefusedAtEnd source d := fun hat => absurd hat.2 (Nat.ne_of_lt hlt)
          exact position_terminated hequal (Nat.le_of_lt hlt) hbefore
        · exact position_terminated_of_refusedAtEnd hend' ⟨hends, hend⟩

namespace Session

/-- A text that is no program is refused in a session for the same reason from a string and from a
file that holds it, and on the same line. The column is the same but where the text is refused at
its very end; from the file it is then one further. -/
theorem refused_from_file (t : Session) (path : String)
    (hsize : source.utf8ByteSize < TextBuffer.maxCapacity)
    (hrefused : (programOfSource source .empty).1 = .error d) :
    ∃ line column : Nat,
      (t.load source).1 = .failure ∧
      (t.load source).2.diagnostics = (t.report ("(string):" ++ toString line ++ ":" ++
        toString column ++ ": " ++ d.message)).diagnostics ∧
      (t.loadFile path (.ok source.toUTF8)).1 = .failure ∧
      (t.loadFile path (.ok source.toUTF8)).2.diagnostics = (t.report (path ++ ":" ++
        toString line ++ ":" ++ toString (if RefusedAtEnd source d then column + 1 else column) ++
        ": " ++ d.message)).diagnostics := by
  obtain ⟨e, hterminated, hmessage, hposition⟩ := refused_terminated hrefused
  have hfile : t.loadFile path (.ok source.toUTF8) =
      t.loadNamed path (source ++ String.singleton terminator) := by
    rw [loadFile, sourceOfFile_toUTF8 path hsize]
  refine ⟨(d.position source.toList).line, (d.position source.toList).column, ?_, ?_, ?_, ?_⟩
  · rw [load, loadNamed_of_error hrefused]
  · rw [load, loadNamed_of_error hrefused]
    exact diagnostics_report_of_eq _ _
  · rw [hfile, loadNamed_of_error hterminated]
  · rw [hfile, loadNamed_of_error hterminated, hposition]
    refine (diagnostics_report_of_eq _ _).trans ?_
    unfold CompileError.display CompileError.location
    dsimp only
    rw [hmessage]
    unfold terminatedPosition
    split
    · rfl
    · rfl

/-- Why a text is refused, if it is. -/
def refusal? : Except Diagnostic (List Stmt) → Option Diagnostic
  | .ok _ => none
  | .error d => some d

theorem eq_error_of_refusal? {program : Except Diagnostic (List Stmt)}
    (h : refusal? program = some d) : program = .error d := by
  cases program with
  | ok body => cases h
  | error e =>
      obtain rfl := Option.some.inj h
      rfl

/-- A text refused where it begins, and one refused at its end. -/
theorem refused_from_file_comment :
    (∃ line column : Nat, (blank.load "/*").1 = .failure ∧
      (blank.loadFile "a.js" (.ok "/*".toUTF8)).2.diagnostics = (blank.report ("a.js" ++ ":" ++
        toString line ++ ":" ++ toString column ++ ": " ++
        "unterminated block comment")).diagnostics) ∧
    ∃ line column : Nat, (blank.load "var").1 = .failure ∧
      (blank.loadFile "a.js" (.ok "var".toUTF8)).2.diagnostics = (blank.report ("a.js" ++ ":" ++
        toString line ++ ":" ++ toString (column + 1) ++ ": " ++
        "expected variable name after `var`, found end of input")).diagnostics := by
  have hcomment : (programOfSource "/*" .empty).1 = .error ⟨.lexer,
      "unterminated block comment", some ⟨0, 2⟩⟩ := eq_error_of_refusal? (by decide +kernel)
  have hvar : (programOfSource "var" .empty).1 = .error ⟨.parser,
      "expected variable name after `var`, found end of input", some ⟨3, 3⟩⟩ :=
    eq_error_of_refusal? (by decide +kernel)
  constructor
  · obtain ⟨line, column, hload, -, -, hfile⟩ :=
      refused_from_file blank "a.js" (by decide) hcomment
    rw [if_neg (by decide)] at hfile
    exact ⟨line, column, hload, hfile⟩
  · obtain ⟨line, column, hload, -, -, hfile⟩ := refused_from_file blank "a.js" (by decide) hvar
    rw [if_pos (by decide)] at hfile
    exact ⟨line, column, hload, hfile⟩

/-- What is reported of a message tells the message. -/
theorem report_inj {t : Session} {written : ByteBuffer} (hstream : t.diagnostics = .buffer written)
    {message message' : String}
    (h : (t.report message).diagnostics = (t.report message').diagnostics) : message = message' := by
  unfold report at h
  rw [hstream] at h
  have hbytes := congrArg ByteBuffer.bytes (Output.buffer.inj h)
  have htext := String.toByteArray_inj.mp ((ByteArray.append_right_inj _).mp hbytes)
  exact (String.append_right_inj _).mp ((String.append_left_inj _).mp htext)

/-- The reports of a declaration that ends after its keyword differ in more than the unit's name. -/
theorem refused_from_file_otherwise :
    ∃ (t : Session) (path source : String),
      (t.load source).1 = .failure ∧
      ¬ ∃ place : String,
        (t.load source).2.diagnostics = (t.report ("(string):" ++ place)).diagnostics ∧
        (t.loadFile path (.ok source.toUTF8)).2.diagnostics =
          (t.report (path ++ ":" ++ place)).diagnostics := by
  have hvar : (programOfSource "var" .empty).1 = .error ⟨.parser,
      "expected variable name after `var`, found end of input", some ⟨3, 3⟩⟩ :=
    eq_error_of_refusal? (by decide +kernel)
  obtain ⟨e, hterminated, hmessage, hposition⟩ := refused_terminated hvar
  obtain ⟨t, hstream⟩ : ∃ t : Session, t.diagnostics = .buffer .empty := ⟨blank, rfl⟩
  have hfailure : (t.load "var").1 = .failure := by
    rw [load, loadNamed_of_error hvar]
  refine ⟨t, "a.js", "var", hfailure, ?_⟩
  rintro ⟨place, hload, hfile⟩
  rw [load, loadNamed_of_error hvar, diagnostics_report_of_eq] at hload
  rw [loadFile, sourceOfFile_toUTF8 _ (by decide)] at hfile
  dsimp only at hfile
  rw [loadNamed_of_error hterminated, diagnostics_report_of_eq, CompileError.display,
    CompileError.location, hposition, hmessage] at hfile
  dsimp only at hfile
  have hplace : "(string):" ++ "1:4: expected variable name after `var`, found end of input" =
      "(string):" ++ place := by
    refine Eq.trans ?_ (report_inj hstream hload)
    decide +kernel
  have hplace' : "a.js:" ++ "1:5: expected variable name after `var`, found end of input" =
      "a.js:" ++ place := by
    refine Eq.trans ?_ (report_inj hstream hfile)
    decide +kernel
  have hsame := ((String.append_right_inj _).mp hplace).trans
    ((String.append_right_inj _).mp hplace').symm
  revert hsame
  decide

end Session

end ScriptHost
