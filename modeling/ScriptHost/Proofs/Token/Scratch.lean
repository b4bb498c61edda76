import ScriptHost.Program.Unit

/-!
The buffer that string literals are assembled in is shared by all scans, but it is only written to:
what is scanned, read and compiled does not depend on what an earlier scan left in it.
-/

namespace ScriptHost

theorem scanToken_fst_eq (c : Char) (cs : List Char) (offset : Nat) (scratch other : TextBuffer) :
    (scanToken c cs offset scratch).1 = (scanToken c cs offset other).1 := by
  unfold scanToken
  split
  · dsimp only
    split <;> rfl
  · split <;> rfl

theorem scanFrom_fst_eq (text : List Char) (offset : Nat) (scratch other : TextBuffer) :
    (scanFrom text offset scratch).1 = (scanFrom text offset other).1 := by
  fun_induction scanFrom text offset scratch generalizing other with
  | case1 text offset scratch d hgap => rw [scanFrom, hgap]
  | case2 text offset scratch start hgap => rw [scanFrom, hgap]
  | case3 text offset scratch cs start hgap =>
      rw [scanFrom, hgap]
      rfl
  | case4 text offset scratch c cs start hgap hc d left hscan =>
      have hfst := scanToken_fst_eq c cs start scratch other
      rw [hscan] at hfst
      rw [scanFrom, hgap]
      dsimp only
      rw [if_neg hc]
      cases hother : scanToken c cs start other with
      | mk result left =>
          rw [hother] at hfst
          cases hfst
          rfl
  | case5 text offset scratch c cs start hgap hc s left hscan token tokens left' hrest ih =>
      have hfst := scanToken_fst_eq c cs start scratch other
      rw [hscan] at hfst
      rw [scanFrom, hgap]
      dsimp only
      rw [if_neg hc]
      cases hother : scanToken c cs start other with
      | mk result left =>
          rw [hother] at hfst
          cases hfst
          dsimp only
          rw [← ih left, hrest]

theorem tokenize_fst_eq (source : String) (scratch other : TextBuffer) :
    (tokenize source scratch).1 = (tokenize source other).1 :=
  scanFrom_fst_eq source.toList 0 scratch other

theorem programOfSource_fst_eq (source : String) (scratch other : TextBuffer) :
    (programOfSource source scratch).1 = (programOfSource source other).1 := by
  unfold programOfSource
  dsimp only
  rw [tokenize_fst_eq source scratch other]

/-- What a text compiles to, or why it is refused, is settled by the text alone; the name and the
environment are only put to it. -/
theorem ScriptUnit.compile_fst (name source : String) (env : Environment)
    (scratch other : TextBuffer) :
    (compile name source env scratch).1 = match (programOfSource source other).1 with
      | .ok body => .ok (ofBody name body env)
      | .error d => .error ⟨name, d.position? source.toList, d⟩ := by
  unfold compile
  dsimp only
  rw [programOfSource_fst_eq source scratch other]
  cases (programOfSource source other).1 <;> rfl

theorem ScriptUnit.compile_fst_eq (name source : String) (env : Environment)
    (scratch other : TextBuffer) :
    (compile name source env scratch).1 = (compile name source env other).1 :=
  (compile_fst name source env scratch other).trans (compile_fst name source env other other).symm

theorem ScriptUnit.compile_snd (name source : String) (env : Environment) (scratch : TextBuffer) :
    (compile name source env scratch).2 = (tokenize source scratch).2 := by
  unfold compile
  dsimp only
  split <;> rfl

/-- A unit that was compiled is the unit of the program that its text holds. -/
theorem ScriptUnit.exists_ofBody_of_compile {name source : String} {env : Environment}
    {scratch : TextBuffer} {u : ScriptUnit} (h : (compile name source env scratch).1 = .ok u) :
    ∃ body, (programOfSource source .empty).1 = .ok body ∧ u = ofBody name body env := by
  rw [compile_fst name source env scratch .empty] at h
  cases hprogram : (programOfSource source .empty).1 with
  | ok body =>
      rw [hprogram] at h
      exact ⟨body, rfl, (Except.ok.inj h).symm⟩
  | error d =>
      rw [hprogram] at h
      cases h

end ScriptHost
