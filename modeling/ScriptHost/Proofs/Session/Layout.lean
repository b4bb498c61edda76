import ScriptHost.Proofs.Session.Outcome
import ScriptHost.Proofs.Token.Layout

/-!
Scripts laid out anew. A text made of the pieces of another, with other blanks and comments between
them, has the same tokens and the same program, and running it comes to the same.
-/

namespace ScriptHost

variable {source text : String} {body body' : List Stmt}

namespace Situation

variable {m m' : Machine}

theorem hostFree_enteringUnit (name : String) (body : List Stmt) (hm : m.HostFree) :
    (enteringUnit m name body).HostFree :=
  ⟨⟨trivial, by simp⟩, trivial, hm⟩

theorem bare_enteringUnit (name : String) (hm : m'.bare = m.bare)
    (hbody : Stmt.bareAll body' = Stmt.bareAll body) :
    (enteringUnit m' name body').bare = (enteringUnit m name body).bare := by
  have hglobal : m'.bare.global = m.bare.global := congrArg Machine.global hm
  change m'.global = m.global at hglobal
  simp only [enteringUnit, bare, Focus.bare, Closure.bare, ScriptUnit.ofBody, FunctionCode.mapSpans,
    Machine.globalValue, Machine.globalEnvironment, hm, hbody, hglobal]

end Situation

namespace Session

variable {s : Session}

theorem hostFree_entering (hrest : s.machine.AtRest) (hfree : s.machine.store.HostFree)
    (source : String) (body : List Stmt) : (s.entering source body).HostFree := by
  refine Situation.hostFree_enteringUnit stringUnitName body ⟨hfree, ?_⟩
  change s.machine.receiver.HostFree
  rw [hrest.receiver]
  exact trivial

theorem bare_entering (hbody : Stmt.bareAll body' = Stmt.bareAll body) :
    (s.entering source body).bare = (s.entering text body').bare :=
  (Situation.bare_enteringUnit stringUnitName rfl hbody).symm

/-- Units of statements that are the same apart from spans end alike. -/
theorem shownAlike_of_bareAll {fuel fuel' : Nat} {n n' : Machine}
    {ending ending' : Ending .expression} (hrest : s.machine.AtRest)
    (hfree : s.machine.store.HostFree) (hbody : Stmt.bareAll body' = Stmt.bareAll body)
    (hunit : (s.entering source body).run s.hosts fuel = some (n, ending))
    (hunit' : (s.entering text body').run s.hosts fuel' = some (n', ending')) :
    n'.bare = n.bare ∧ ending.ShownAlike ending' := by
  obtain ⟨hbare, hending⟩ := Situation.bare_eq_of_run (hostFree_entering hrest hfree source body)
    (hostFree_entering hrest hfree text body') (bare_entering hbody) hunit hunit'
  exact ⟨hbare, Ending.shownAlike_of_bare hending (Situation.returned_of_run rfl hunit).2⟩

/-- Where one of two such units ends, so does the other. -/
theorem exists_run_of_bareAll {fuel : Nat} {n : Machine} {ending : Ending .expression}
    (hrest : s.machine.AtRest) (hfree : s.machine.store.HostFree)
    (hbody : Stmt.bareAll body' = Stmt.bareAll body)
    (hunit : (s.entering source body).run s.hosts fuel = some (n, ending)) :
    ∃ n' ending', (s.entering text body').run s.hosts fuel = some (n', ending') := by
  have hsame := Situation.bare_run s.hosts (hostFree_entering hrest hfree source body)
    (hostFree_entering hrest hfree text body') (bare_entering hbody) fuel
  rw [hunit] at hsame
  obtain ⟨⟨n', ending'⟩, hunit', -⟩ := Option.map_eq_some_iff.mp hsame.symm
  exact ⟨n', ending', hunit'⟩

/-- Texts of programs that are the same apart from spans run alike. -/
theorem sameOutcome_of_bareAll {first second : Status × Session} {fuel fuel' : Nat}
    (hrest : s.machine.AtRest) (hfree : s.machine.store.HostFree)
    (hsource : (programOfSource source .empty).1 = .ok body)
    (htext : (programOfSource text .empty).1 = .ok body')
    (hbody : Stmt.bareAll body' = Stmt.bareAll body)
    (hrun : s.runString fuel source = .ok first) (hrun' : s.runString fuel' text = .ok second) :
    SameOutcome first second := by
  obtain ⟨n, ending, hunit, hleft⟩ := left_of_runString hsource hrest hrun
  obtain ⟨n', ending', hunit', hleft'⟩ := left_of_runString htext hrest hrun'
  obtain ⟨hbare, halike⟩ := shownAlike_of_bareAll hrest hfree hbody hunit hunit'
  exact sameOutcome_of_left rfl hleft hleft' hbare halike

/-- Every text laid out from the pieces of another has tokens of the same kinds and lexemes, and the
same program apart from spans or a refusal with the same message. Where a session without natives of
the host finishes the run of the one, it finishes that of the other, with the same outcome. -/
theorem unnoticed_layout (source : String) (scratch : TextBuffer) (front : List Token)
    (last : Token) (htokens : (tokenize source scratch).1 = .ok (front ++ [last])) :
    (∃ (pieces : List (List Char)) (text : String), ArePieces source.toList pieces front ∧
      Laid pieces text.toList) ∧
    ∀ (pieces : List (List Char)) (text : String), ArePieces source.toList pieces front →
      Laid pieces text.toList →
        (∃ tokens, (tokenize text scratch).1 = .ok tokens ∧
          List.Forall₂ Token.SameText (front ++ [last]) tokens) ∧
        ReadAlike (programOfSource source scratch).1 (programOfSource text scratch).1 ∧
        ∀ (s : Session) (body : List Stmt) (fuel : Nat) (first : Status × Session),
          s.Reachable → s.machine.store.HostFree →
          (programOfSource source scratch).1 = .ok body → s.runString fuel source = .ok first →
            (∃ second, s.runString fuel text = .ok second) ∧
            ∀ (fuel' : Nat) (second : Status × Session),
              s.runString fuel' text = .ok second → SameOutcome first second := by
  obtain ⟨hlast, hempty, ⟨pieces, hpieces⟩, halone⟩ := scansAlone_of_tokens htokens
  constructor
  · exact ⟨pieces, _, hpieces, laid_spaced pieces⟩
  · clear hpieces pieces
    intro pieces text hpieces hlaid
    obtain ⟨tokens, stop, hscan, hsame⟩ := hlaid.scanFrom (halone pieces hpieces) 0 scratch
    have hwhole : List.Forall₂ Token.SameText (front ++ [last]) (tokens ++ [.ofEnd stop]) :=
      List.rel_append hsame (.cons ⟨hlast.symm, hempty.symm⟩ .nil)
    have halike :
        ReadAlike (programOfSource source scratch).1 (programOfSource text scratch).1 := by
      change ReadAlike ((tokenize source scratch).1 >>= programOfTokens)
        ((scanFrom text.toList 0 scratch).1 >>= programOfTokens)
      rw [htokens, hscan]
      exact readAlike_of_sameText hwhole
    refine ⟨⟨_, hscan, hwhole⟩, halike, ?_⟩
    intro s body fuel first hreachable hfree hbody hrun
    have hrest := hreachable.atRest
    rw [hbody] at halike
    generalize htext : (programOfSource text scratch).1 = program at halike
    cases halike with
    | ok hbare =>
        rw [programOfSource_fst_eq source scratch .empty] at hbody
        rw [programOfSource_fst_eq text scratch .empty] at htext
        constructor
        · obtain ⟨n, ending, hunit, -⟩ := left_of_runString hbody hrest hrun
          obtain ⟨n', ending', hunit'⟩ := exists_run_of_bareAll hrest hfree hbare hunit
          exact exists_runString_of_run htext hrest hunit'
        · intro fuel' second hrun'
          exact sameOutcome_of_bareAll hrest hfree hbody htext hbare hrun hrun'

/-- A declaration without blanks where they can be left out, and one with comments and blanks
wherever they may stand. -/
theorem unnoticed_layout_comments :
    ∃ (pieces : List (List Char)) (front : List Token) (last : Token)
      (first second : Status × Session),
      (tokenize "var x='a'+1" .empty).1 = .ok (front ++ [last]) ∧
      ArePieces "var x='a'+1".toList pieces front ∧
      Laid pieces "var\tx = /* = */ 'a' + 1 // end\n".toList ∧
      blank.runString 60 "var x='a'+1" = .ok first ∧
      blank.runString 60 "var\tx = /* = */ 'a' + 1 // end\n" = .ok second ∧
      SameOutcome first second := by
  let front : List Token := [⟨.keyword .var, "var", ⟨0, 3⟩⟩, ⟨.identifier, "x", ⟨4, 5⟩⟩,
    ⟨.assign, "=", ⟨5, 6⟩⟩, ⟨.string, "a", ⟨6, 9⟩⟩, ⟨.plus, "+", ⟨9, 10⟩⟩, ⟨.number, "1", ⟨10, 11⟩⟩]
  have hscan : (tokenize "var x='a'+1" .empty).1 = .ok (front ++ [.ofEnd 11]) := by decide +kernel
  have hsource : "var x='a'+1".toList =
      ['v', 'a', 'r', ' ', 'x', '=', '\'', 'a', '\'', '+', '1'] := by decide +kernel
  have hpieces : ArePieces "var x='a'+1".toList
      [['v', 'a', 'r'], ['x'], ['='], ['\'', 'a', '\''], ['+'], ['1']] front := by
    rw [hsource]
    refine .cons ⟨[], _, rfl, rfl, rfl⟩ <| .cons ⟨['v', 'a', 'r', ' '], _, rfl, rfl, rfl⟩ <|
      .cons ⟨['v', 'a', 'r', ' ', 'x'], _, rfl, rfl, rfl⟩ <|
      .cons ⟨['v', 'a', 'r', ' ', 'x', '='], _, rfl, rfl, rfl⟩ <|
      .cons ⟨['v', 'a', 'r', ' ', 'x', '=', '\'', 'a', '\''], _, rfl, rfl, rfl⟩ <|
      .cons ⟨['v', 'a', 'r', ' ', 'x', '=', '\'', 'a', '\'', '+'], [], rfl, rfl, rfl⟩ .nil
  have hblank : IsSeparator [' '] := ⟨' ', [], rfl, rfl, .nil⟩
  have htab : IsSeparator ['\t'] := ⟨'\t', [], rfl, rfl, .nil⟩
  have hcomment : IsGap ('/' :: '*' :: [' ', '=', ' '] ++ '*' :: '/' :: [' ']) :=
    .block (by decide) (by decide) (.blank rfl .nil)
  have hline : IsGap ('/' :: '/' :: [' ', 'e', 'n', 'd'] ++ ['\n']) :=
    .line (by decide) (by decide) .nil
  obtain ⟨l, hlaid, hl⟩ : ∃ l,
      Laid [['v', 'a', 'r'], ['x'], ['='], ['\'', 'a', '\''], ['+'], ['1']] l ∧
      "var\tx = /* = */ 'a' + 1 // end\n".toList = l :=
    ⟨_, .cons .nil <| .cons htab <| .cons hblank <| .cons ⟨' ', _, rfl, rfl, hcomment⟩ <|
      .cons hblank <| .cons hblank <| .gap ⟨' ', _, rfl, rfl, hline⟩, by decide +kernel⟩
  have hends : (blank.runString 60 "var x='a'+1").isOk = true := by decide +kernel
  have hends' : (blank.runString 60 "var\tx = /* = */ 'a' + 1 // end\n").isOk = true := by
    decide +kernel
  have haccepted : (programOfSource "var x='a'+1" .empty).1.isOk = true := by decide +kernel
  obtain ⟨first, hfirst⟩ := exists_of_isOk hends
  obtain ⟨second, hsecond⟩ := exists_of_isOk hends'
  obtain ⟨body, hbody⟩ := exists_of_isOk haccepted
  rw [← hl] at hlaid
  refine ⟨_, front, _, first, second, hscan, hpieces, hlaid, hfirst, hsecond, ?_⟩
  exact (((unnoticed_layout _ .empty front _ hscan).2 _ _ hpieces hlaid).2.2 blank body 60 first
    reachable_blank hostFree_blank hbody hfirst).2 60 second hsecond

end Session

end ScriptHost
