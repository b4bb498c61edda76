import Mathlib.Data.List.Infix
import ScriptHost.Proofs.Session.Event
import ScriptHost.Proofs.Session.Loading

/-!
Running a text from a file that holds it. Bytes that are no text are refused, and refused as such in
no other case. A text that is a program is the same program before the terminator that is put after
it, so it is loaded from the file as it is from a string, under another name, and run alike.
-/

namespace ScriptHost

variable {source : String} {body : List Stmt}

/-! The program of a text that a terminator follows. -/

/-- A second terminator is never reached. -/
theorem tokenize_terminated_of_mem (h : terminator ∈ source.toList) (scratch : TextBuffer) :
    tokenize (source ++ String.singleton terminator) scratch = tokenize source scratch := by
  obtain ⟨front, after, hsplit, hfront⟩ := List.eq_append_cons_of_mem h
  obtain ⟨result, -, hresult⟩ := scanFrom_terminator 0 scratch hfront
  rw [tokenize, tokenize, toList_terminated, hsplit, List.append_assoc, List.cons_append, hresult,
    hresult]

theorem tokenize_snd_terminated (source : String) (scratch : TextBuffer) :
    (tokenize (source ++ String.singleton terminator) scratch).2 = (tokenize source scratch).2 := by
  by_cases hends : terminator ∈ source.toList
  · rw [tokenize_terminated_of_mem hends]
  · obtain ⟨result, -, hresult⟩ := scanFrom_terminator 0 scratch hends
    rw [tokenize, tokenize, toList_terminated, hresult]

/-- A program stays the same before a terminator, with all its spans. -/
theorem accepted_terminated (h : (programOfSource source .empty).1 = .ok body) :
    (programOfSource (source ++ String.singleton terminator) .empty).1 = .ok body := by
  by_cases hends : terminator ∈ source.toList
  · rw [programOfSource, tokenize_terminated_of_mem hends]
    exact h
  -- here the two token lists differ in the place of their end, which no program keeps
  · obtain ⟨result, hsame, hwhole⟩ := programOfSource_terminated hends .empty
    rw [hwhole _ [] (toList_terminated source)]
    rw [h] at hsame
    cases hsame with
    | ok => rfl

namespace Machine

theorem compile_snd_terminated (m : Machine) (name other source : String) :
    (m.compile name (source ++ String.singleton terminator)).2 = (m.compile other source).2 := by
  have hscratch := tokenize_snd_terminated source m.scratch
  rw [← ScriptUnit.compile_snd name _ m.globalEnvironment,
    ← ScriptUnit.compile_snd other _ m.globalEnvironment] at hscratch
  exact congrArg (fun scratch => { m with scratch := scratch }) hscratch

/-- A unit runs alike under any name. -/
theorem runUnit_ofBody (m : Machine) (hosts : HostTable) (fuel : Nat) (name other : String)
    (body : List Stmt) (env : Environment) :
    m.runUnit hosts fuel (.ofBody name body env) =
      m.runUnit hosts fuel (.ofBody other body env) := by
  rw [runUnit, runUnit]
  cases m.trap.arm with
  | error f => rfl
  | ok trap => cases fuel <;> rfl

end Machine

/-! The report of bytes that are no text, told from others. -/

/-- What is reported of bytes that are no text, up to the path. -/
def encodingPrefix : List Char := "file is not valid UTF-8: '".toList

/-- Only a blank stands after a colon. -/
theorem encodingPrefix_colon :
    ∀ left ∈ encodingPrefix.tails, left.head? = some ':' → left[1]? = some ' ' := by
  decide

/-- The report names its path at another place than a refusal does. A path that begins with the
report goes on with the same two places, so the induction is on the path. -/
theorem encodingPrefix_ne_place (path rest : List Char) {c : Char} (hc : c ≠ ' ') :
    encodingPrefix ++ (path ++ ['\'']) ≠ path ++ ':' :: c :: rest := by
  induction hlength : path.length using Nat.strongRecOn generalizing path with
  | ind length ih =>
      subst hlength
      intro h
      rcases List.append_eq_append_iff.mp h with ⟨longer, hpath, hrest⟩ | ⟨left, hprefix, hrest⟩
      · have hshorter : longer.length < path.length := by
          rw [hpath, List.length_append]
          exact Nat.lt_add_of_pos_left (by decide)
        refine ih longer.length hshorter longer rfl ?_
        rw [hpath, List.append_assoc] at hrest
        exact hrest
      · have hleft : left ∈ encodingPrefix.tails :=
          (List.mem_tails _ _).mpr ⟨path, hprefix.symm⟩
        cases left with
        | nil =>
            rw [List.append_nil] at hprefix
            rw [List.nil_append, ← hprefix] at hrest
            exact absurd (List.cons.inj hrest).1 (by decide)
        | cons first left =>
            obtain ⟨rfl, hafter⟩ := List.cons.inj hrest
            have hsecond := encodingPrefix_colon _ hleft rfl
            cases left with
            | nil => contradiction
            | cons second left =>
                obtain ⟨rfl, -⟩ := List.cons.inj hafter
                exact hc (Option.some.inj hsecond)

theorem exists_digit_of_toString (n : Nat) :
    ∃ c rest, (toString n).toList = c :: rest ∧ c ≠ ' ' := by
  rw [Nat.toString_eq_repr, Nat.toList_repr]
  obtain ⟨c, rest, hdigits⟩ := List.exists_cons_of_ne_nil (Nat.toDigits_ne_nil (n := n) (b := 10))
  have hdigit : c.isDigit = true :=
    Nat.isDigit_of_mem_toDigits (by decide) (by decide) (hdigits ▸ List.mem_cons_self)
  refine ⟨c, rest, hdigits, ?_⟩
  rintro rfl
  exact absurd hdigit (by decide)

theorem toList_encoding (path : String) :
    (LoadError.encoding path).message.toList = encodingPrefix ++ (path.toList ++ ['\'']) := by
  have hmessage : (LoadError.encoding path).message =
      "file is not valid UTF-8: '" ++ path ++ "'" := rfl
  have hquote : "'".toList = ['\''] := by simp
  rw [hmessage, String.toList_append, String.toList_append, hquote, List.append_assoc]
  rfl

theorem encoding_ne_display (unitName : String) (p : Position) (d : Diagnostic) :
    (LoadError.encoding unitName).message ≠ CompileError.display ⟨unitName, some p, d⟩ := by
  intro h
  obtain ⟨c, rest, hline, hc⟩ := exists_digit_of_toString p.line
  have hplace := congrArg String.toList h
  rw [toList_encoding, CompileError.display, CompileError.location] at hplace
  simp only [String.toList_append, List.append_assoc, hline, List.cons_append] at hplace
  exact encodingPrefix_ne_place _ _ hc hplace

theorem encoding_ne_fault (path : String) (f : Fault) :
    (LoadError.encoding path).message ≠ f.display := by
  intro h
  have hfirst := congrArg List.head? (congrArg String.toList h)
  rw [toList_encoding, Fault.display, String.toList_append, String.toList_append] at hfirst
  cases hkind : f.kind <;>
    · rw [hkind] at hfirst
      exact absurd (Option.some.inj hfirst) (by decide)

namespace Session

variable {s t left : Session} {fuel : Nat}

theorem loadFile_of_not_isValidUTF8 (path : String) {bytes : ByteArray}
    (hsize : bytes.size < TextBuffer.maxCapacity) (hbytes : ¬ bytes.IsValidUTF8) :
    s.loadFile path (.ok bytes) = (.failure, s.report (LoadError.encoding path).message) := by
  have hallocate : TextBuffer.allocate? bytes.size = some ⟨"", true⟩ := if_pos hsize
  have htaken : bytes.extract 0 (min bytes.size bytes.size) = bytes := by
    rw [Nat.min_self, ByteArray.extract_zero_size]
  have hdecode : String.fromUTF8? bytes = none := dif_neg hbytes
  rw [loadFile, sourceOfFile, hallocate]
  dsimp only
  rw [TextBuffer.fill, htaken, hdecode]

theorem loadFile_toUTF8 (s : Session) (path : String)
    (hsize : source.utf8ByteSize < TextBuffer.maxCapacity) :
    s.loadFile path (.ok source.toUTF8) =
      s.loadNamed path (source ++ String.singleton terminator) := by
  rw [loadFile, sourceOfFile_toUTF8 path hsize]

/-- A unit is loaded from a file as it is from a string, under another name. -/
theorem loadFile_of_ok (path : String) (hsize : source.utf8ByteSize < TextBuffer.maxCapacity)
    (h : (programOfSource source .empty).1 = .ok body) :
    s.loadFile path (.ok source.toUTF8) = (.success, { (s.load source).2 with
      pending := some (.ofBody path body s.machine.globalEnvironment) }) := by
  rw [loadFile_toUTF8 s path hsize, loadNamed_of_ok (accepted_terminated h), load,
    loadNamed_of_ok h, Machine.compile_snd_terminated s.machine path stringUnitName source]

theorem call_ofBody (fuel : Nat) (s : Session) (name other : String) (body : List Stmt)
    (env : Environment) :
    call fuel { s with pending := some (.ofBody name body env) } =
      call fuel { s with pending := some (.ofBody other body env) } := by
  rw [call_eq_map, call_eq_map, runPending, runPending]
  dsimp only
  rw [Machine.runUnit_ofBody s.machine s.hosts fuel name other body env]

/-- A run reports nothing or the fault that it ended in. -/
theorem diagnostics_of_runPending {unit : ScriptUnit} {value : Option Value}
    (hpending : s.pending = some unit) (h : s.runPending fuel = .ok (value, t)) :
    t.diagnostics = s.diagnostics ∨
      ∃ f : Fault, t.diagnostics = s.diagnostics.put (record f.display) := by
  rw [runPending, hpending] at h
  dsimp only at h
  split at h
  · contradiction
  · rename_i machine ending hrun
    cases ending with
    | value v =>
        obtain ⟨-, rfl⟩ := Prod.mk.inj (Except.ok.inj h)
        exact .inl rfl
    | fault f =>
        obtain ⟨-, rfl⟩ := Prod.mk.inj (Except.ok.inj h)
        exact .inr ⟨f, by rw [report_eq]⟩
    | stranded message => contradiction

/-- No load of a text is reported as one of bytes that are none. -/
theorem diagnostics_of_runFile_toUTF8 {path : String} {written : ByteBuffer} {status : Status}
    (hsize : source.utf8ByteSize < TextBuffer.maxCapacity)
    (hwritten : s.diagnostics = .buffer written)
    (h : s.runFile fuel path (.ok source.toUTF8) = .ok (status, t)) :
    t.diagnostics ≠ (s.report (LoadError.encoding path).message).diagnostics := by
  intro hreport
  rw [runFile, loadFile_toUTF8 s path hsize] at h
  cases hprogram : (programOfSource (source ++ String.singleton terminator) .empty).1 with
  | error d =>
      rw [loadNamed_of_error hprogram] at h
      obtain ⟨-, rfl⟩ := Prod.mk.inj (Except.ok.inj h)
      rw [diagnostics_report_of_eq] at hreport
      exact encoding_ne_display path _ d (report_inj hwritten hreport).symm
  | ok body =>
      rw [loadNamed_of_ok hprogram, callLoaded, call_eq_map] at h
      obtain ⟨⟨value, left⟩, hrun, heq⟩ := exists_of_map_eq_ok h
      obtain ⟨-, rfl⟩ := Prod.mk.inj heq
      rcases diagnostics_of_runPending rfl hrun with hsilent | ⟨f, hfault⟩
      · have hsame := hsilent.symm.trans hreport
        rw [report_eq, hwritten] at hsame
        exact Output.write_record_ne written _ hsame.symm
      · have hsame : (s.report f.display).diagnostics =
            (s.report (LoadError.encoding path).message).diagnostics := by
          rw [← hreport, hfault, report_eq]
        exact encoding_ne_fault path f (report_inj hwritten hsame).symm

/-- A file is reported to hold no text exactly if it holds none. If it holds a text that is a
program, the unit that is loaded from it is that loaded from a string but for its name, and running
it comes to the same in every respect. -/
theorem accepted_from_file (s : Session) (path : String) (bytes : ByteArray)
    (hsize : bytes.size < TextBuffer.maxCapacity) :
    (¬ bytes.IsValidUTF8 → ∀ fuel, s.runFile fuel path (.ok bytes) =
      .ok (.failure, s.report ("file is not valid UTF-8: '" ++ path ++ "'"))) ∧
    (∀ written, s.diagnostics = .buffer written → ∀ fuel status t,
      s.runFile fuel path (.ok bytes) = .ok (status, t) →
      t.diagnostics = (s.report ("file is not valid UTF-8: '" ++ path ++ "'")).diagnostics →
      ¬ bytes.IsValidUTF8) ∧
    ∀ text : String, text.toUTF8 = bytes → ∀ left, s.load text = (.success, left) →
      ∃ body env, left.pending = some (.ofBody stringUnitName body env) ∧
        s.loadFile path (.ok bytes) =
          (.success, { left with pending := some (.ofBody path body env) }) ∧
        ∀ fuel, s.runFile fuel path (.ok bytes) = s.runString fuel text := by
  refine ⟨?_, ?_, ?_⟩
  · intro hbytes fuel
    rw [runFile, loadFile_of_not_isValidUTF8 path hsize hbytes]
    rfl
  · intro written hwritten fuel status t hrun hreport hvalid
    obtain ⟨text, rfl⟩ : ∃ text : String, text.toUTF8 = bytes := ⟨.ofByteArray bytes hvalid, rfl⟩
    exact diagnostics_of_runFile_toUTF8 hsize hwritten hrun hreport
  · rintro text rfl left hload
    cases hprogram : (programOfSource text .empty).1 with
    | error d =>
        rw [load, loadNamed_of_error hprogram] at hload
        cases (Prod.mk.inj hload).1
    | ok body =>
        have hfile := loadFile_of_ok (s := s) path hsize hprogram
        rw [hload] at hfile
        rw [load, loadNamed_of_ok hprogram] at hload
        obtain ⟨-, rfl⟩ := Prod.mk.inj hload
        refine ⟨body, _, rfl, hfile, fun fuel => ?_⟩
        rw [runFile, hfile, runString, load, loadNamed_of_ok hprogram]
        exact call_ofBody fuel _ path stringUnitName body _

/-- A text that ends in a line comment, and a byte that is no text. -/
theorem accepted_from_file_comment :
    (∃ left, blank.load "var x = 1; x // end" = (.success, left) ∧
      ∃ body env, left.pending = some (.ofBody stringUnitName body env) ∧
        blank.loadFile "a.js" (.ok "var x = 1; x // end".toUTF8) =
          (.success, { left with pending := some (.ofBody "a.js" body env) }) ∧
        ∀ fuel, blank.runFile fuel "a.js" (.ok "var x = 1; x // end".toUTF8) =
          blank.runString fuel "var x = 1; x // end") ∧
    ∀ fuel, blank.runFile fuel "a.js" (.ok ⟨#[0xFF]⟩) =
      .ok (.failure, blank.report ("file is not valid UTF-8: '" ++ "a.js" ++ "'")) := by
  constructor
  · have hsucceeds : (blank.load "var x = 1; x // end").1 = .success := by decide +kernel
    obtain ⟨-, -, hloads⟩ :=
      accepted_from_file blank "a.js" "var x = 1; x // end".toUTF8 (by decide)
    exact ⟨_, Prod.ext hsucceeds rfl, hloads _ rfl _ (Prod.ext hsucceeds rfl)⟩
  · exact (accepted_from_file blank "a.js" ⟨#[0xFF]⟩ (by decide)).1 (by decide +kernel)

end Session

end ScriptHost
