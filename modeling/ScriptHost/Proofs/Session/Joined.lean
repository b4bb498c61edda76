import ScriptHost.Proofs.Machine.Sequence
import ScriptHost.Proofs.Program.Joined
import ScriptHost.Proofs.Session.Layout

/-!
Two texts run one after the other, and as one text with a semicolon between them. The body of a unit
runs statement by statement in the global frame and ends where the unit of the second text begins;
so it makes no difference whether another run is begun there or the statements go on.
-/

namespace ScriptHost

variable {hosts : HostTable} {m n o : Machine} {name : String} {body more joint : List Stmt}
  {ending : Ending .expression} {environment : Environment} {receiver : Value}

/-- How the call of a unit ends by how its statements do. -/
def Ending.ofUnit : Ending .statement → Ending .expression
  | .completion (.normal latest) => .value (latest.getD .undefined)
  | .completion (.return v) => .value v
  | .fault f => .fault f
  | .stranded message => .stranded message

theorem Ending.ShownAlike.trans {p : Phrase} {e e' e'' : Ending p} (h : e.ShownAlike e')
    (h' : e'.ShownAlike e'') : e.ShownAlike e'' := by
  cases h with
  | value v w => cases h' with | value => exact .value ..
  | fault h => cases h' with | fault h' => exact .fault (h'.trans h)

theorem Ending.SameButLast.shownAlike {e e' : Ending .statement} (h : e.SameButLast e')
    (hreturned : ¬ e.IsStranded) : e.ofUnit.ShownAlike e'.ofUnit := by
  cases h with
  | normal value value' => exact .value ..
  | refl =>
      cases e with
      | stranded message => exact absurd trivial hreturned
      | fault f => exact .fault rfl
      | completion c => cases c <;> exact .value ..

namespace Situation

/-- The call of a unit does what its statements do in turn, and returns. -/
theorem comes_inUnit (harmed : m.trap.armed = true) :
    (inUnit m environment receiver body).Comes hosts (n, ending) ↔
      ∃ o e, InTurn hosts m body none o e ∧ ¬ e.IsStranded ∧
        (n, ending) = (o.returned environment receiver, e.ofUnit) := by
  constructor
  · intro h
    have hover : ((sequence m body none).over
        (.cons (.returnTo environment receiver true) .nil)).Comes hosts (n, ending) := h
    obtain ⟨o, e, t, hs, -, hresume, ht⟩ := hover.exists_of_over harmed
    refine ⟨o, e, .of_comes hs harmed, (hs.returned harmed).2, ?_⟩
    cases e with
    | stranded message => cases hresume
    | fault f =>
        obtain rfl := Progress.next.inj hresume
        exact (ht.next rfl).eq_of_halt rfl
    | completion c =>
        obtain rfl := Progress.next.inj hresume
        cases c <;> exact (ht.next rfl).eq_of_halt rfl
  · rintro ⟨o, e, hbody, hreturned, heq⟩
    have hs := hbody.comes harmed
    rw [heq]
    cases e with
    | stranded message => exact absurd trivial hreturned
    | fault f => exact hs.over rfl (.of_step rfl (.of_halt rfl))
    | completion c => cases c <;> exact hs.over rfl (.of_step rfl (.of_halt rfl))

theorem Comes.buffered {p : Phrase} {s : Situation p} {ending : Ending p}
    (h : s.Comes hosts (n, ending)) (b : TextBuffer) :
    ∃ left, (s.buffered b).Comes hosts (n.buffered left, ending) := by
  obtain ⟨fuel, h⟩ := h
  obtain ⟨left, hleft⟩ := @run_buffered _ hosts fuel s b
  rw [h] at hleft
  exact ⟨left, fuel, hleft⟩

end Situation

open Situation

theorem InTurn.of_joint (hjoint : Joint joint) (latest : Option Value)
    (hroom : m.nesting < maxNesting) :
    InTurn hosts m joint latest m (.completion (.normal latest)) := by
  cases hjoint with
  | none => exact .nil m latest
  | empty span => exact .empty span latest hroom

/-- The body of a unit that ends in a fault ends so before further statements as well. -/
theorem comes_inUnit_append_of_fault {f : Fault} (harmed : m.trap.armed = true)
    (h : (inUnit m environment receiver body).Comes hosts (n, .fault f)) (rest : List Stmt) :
    (inUnit m environment receiver (body ++ rest)).Comes hosts (n, .fault f) := by
  obtain ⟨o, e, hbody, -, heq⟩ := (comes_inUnit harmed).mp h
  cases e with
  | fault g =>
      have hwhole := hbody.append_of_isEarly trivial rest
      exact (comes_inUnit harmed).mpr ⟨o, .fault g, hwhole, id, heq⟩
  | completion c => cases c <;> cases heq
  | stranded message => cases heq

/-- The body of a unit that comes to a value has ended in its turn. -/
theorem exists_inTurn_of_value {v : Value} (harmed : m.trap.armed = true)
    (hproper : Stmt.ProperAll false body)
    (h : (inUnit m environment receiver body).Comes hosts (n, .value v)) :
    ∃ o value, InTurn hosts m body none o (.completion (.normal value)) ∧
      n = o.returned environment receiver ∧ o.trap.armed = true ∧ o.context = m.context := by
  obtain ⟨o, e, hbody, -, heq⟩ := (comes_inUnit harmed).mp h
  obtain ⟨rfl, hending⟩ := Prod.mk.inj heq
  obtain ⟨fuel, hrun⟩ := hbody.comes harmed
  cases e with
  | fault f => cases hending
  | stranded message => cases hending
  | completion c =>
      cases c with
      | «return» v =>
          have houtside : (sequence m body none).Outside := ⟨hproper, trivial⟩
          exact absurd trivial (not_isReturn_of_run houtside harmed hrun)
      | normal value =>
          exact ⟨o, value, hbody, rfl, (Comes.returned ⟨fuel, hrun⟩ harmed).1,
            context_of_run hrun id⟩

/-- What the body of another unit makes of the machine that statements leave, statements behind them
make of it as well. -/
theorem comes_inUnit_append {value : Option Value} (harmed : m.trap.armed = true)
    (ho : o.trap.armed = true) (hroom : o.nesting < maxNesting)
    (hbody : InTurn hosts m body none o (.completion (.normal value))) (hjoint : Joint joint)
    (hsecond : (inUnit o environment receiver more).Comes hosts (n, ending)) :
    ∃ ending', ending.ShownAlike ending' ∧
      (inUnit m environment receiver (body ++ joint ++ more)).Comes hosts (n, ending') := by
  obtain ⟨o', e, hmore, hreturned, heq⟩ := (comes_inUnit ho).mp hsecond
  obtain ⟨rfl, rfl⟩ := Prod.mk.inj heq
  obtain ⟨e', hafter, hsame⟩ := hmore.after value
  have hwhole := (hbody.append (.of_joint hjoint value hroom)).append hafter
  have hreturned' := ((hafter.comes ho).returned ho).2
  exact ⟨e'.ofUnit, hsame.shownAlike hreturned,
    (comes_inUnit harmed).mpr ⟨o', e', hwhole, hreturned', rfl⟩⟩

/-- The unit of a second text begins where the statements of the first have ended, whatever the
buffer then holds. -/
theorem atTop_returned (h : o.context = m.atTop.context) (b : TextBuffer) :
    ((o.returned environment receiver).buffered b).atTop = o.buffered b := by
  obtain ⟨store, registry, global, scope, self, depth, nesting, limit, trap, scratch, output⟩ := o
  simp only [Machine.context, Context.mk.injEq] at h
  obtain ⟨rfl, rfl, rfl, -, -, rfl, -⟩ := h
  rfl

theorem comes_enteringUnit_append_of_fault {f : Fault} (harmed : m.trap.armed = true)
    (h : (enteringUnit m name body).Comes hosts (n, .fault f)) (rest : List Stmt) :
    (enteringUnit m name (body ++ rest)).Comes hosts (n, .fault f) := by
  by_cases hcall : m.depth < m.maxCallDepth
  · have hbegin := h.next (step_enteringUnit name hcall)
    exact (comes_inUnit_append_of_fault (m := m.atTop) harmed hbegin rest).of_step
      (step_enteringUnit name hcall)
  · -- the call itself is refused, whatever the unit
    have hfull := fun body => step_enteringUnit_of_full hosts name body hcall harmed
    have heq := (h.next (hfull body)).eq_of_halt rfl
    rw [heq]
    exact .of_step (hfull _) (.of_halt rfl)

/-- What the call of another unit makes of the machine that the call of a unit leaves, further
statements of the unit make of it as well. -/
theorem comes_enteringUnit_append {v : Value} {b : TextBuffer} (harmed : m.trap.armed = true)
    (hroom : m.nesting < maxNesting) (hproper : Stmt.ProperAll false body) (hjoint : Joint joint)
    (hfirst : (enteringUnit m name body).Comes hosts (n, .value v))
    (hsecond : (enteringUnit (n.buffered b) name more).Comes hosts (o, ending)) :
    ∃ left ending', ending.ShownAlike ending' ∧
      (enteringUnit m name (body ++ joint ++ more)).Comes hosts (o.buffered left, ending') := by
  have hcall : m.depth < m.maxCallDepth := by
    by_contra hfull
    cases (hfirst.next (step_enteringUnit_of_full hosts name body hfull harmed)).eq_of_halt rfl
  have hbegin := hfirst.next (step_enteringUnit name hcall)
  obtain ⟨last, value, hbody, rfl, hlast, hcontext⟩ :=
    exists_inTurn_of_value (m := m.atTop) harmed hproper hbegin
  have hdepth : last.depth = m.depth + 1 := congrArg Context.depth hcontext
  have hnesting : last.nesting = m.nesting := congrArg Context.nesting hcontext
  have hlimit : last.maxCallDepth = m.maxCallDepth := congrArg Context.maxCallDepth hcontext
  have hcall' :
      ((last.returned m.environment m.receiver).buffered b).depth < last.maxCallDepth := by
    change last.depth - 1 < last.maxCallDepth
    omega
  have hbegin' := hsecond.next (step_enteringUnit name hcall')
  rw [atTop_returned hcontext b] at hbegin'
  obtain ⟨left, hleft⟩ := hbegin'.buffered last.scratch
  obtain ⟨ending', halike, hjoined⟩ :=
    comes_inUnit_append (m := m.atTop) harmed hlast (hnesting ▸ hroom) hbody hjoint hleft
  exact ⟨left, ending', halike, hjoined.of_step (step_enteringUnit name hcall)⟩

/-- The second of two runs begins with the machine that the first left, apart from the buffer. -/
theorem exists_buffered (htrap : n.trap = ⟨true⟩) (name source : String) :
    ∃ b, ({ n with trap := .idle }.compile name source).2.running = n.buffered b := by
  obtain ⟨store, registry, global, environment, receiver, depth, nesting, limit, trap, scratch,
    output⟩ := n
  obtain rfl : trap = ⟨true⟩ := htrap
  exact ⟨_, rfl⟩

namespace Session

variable {s : Session}

/-- Runs a text and then, unless it failed, another. -/
def runBoth (fuel more : Nat) (s : Session) (first second : String) :
    Except Halt (Status × Session) :=
  match s.runString fuel first with
  | .ok (.success, t) => t.runString more second
  | other => other

theorem runBoth_cases {first second : String} {one : Status × Session} {fuel fuel' : Nat}
    (h : s.runBoth fuel fuel' first second = .ok one) :
    (∃ t, s.runString fuel first = .ok (.failure, t) ∧ one = (.failure, t)) ∨
    ∃ t, s.runString fuel first = .ok (.success, t) ∧ t.runString fuel' second = .ok one := by
  rw [runBoth] at h
  cases hrun : s.runString fuel first with
  | error halt =>
      rw [hrun] at h
      cases h
  | ok result =>
      obtain ⟨status, t⟩ := result
      rw [hrun] at h
      cases status with
      | success => exact .inr ⟨t, rfl, h⟩
      | failure => exact .inl ⟨t, rfl, (Except.ok.inj h).symm⟩

/-- Where two texts run one after the other, the unit of both their statements ends, and what the
two leave is what any text leaves that ends so. -/
theorem exists_run_of_runBoth {first second : String} {one : Status × Session} {fuel fuel' : Nat}
    (hrest : s.machine.AtRest) (hproper : Stmt.ProperAll false body)
    (hfirst : (programOfSource first .empty).1 = .ok body)
    (hsecond : (programOfSource second .empty).1 = .ok more) (hjoint : Joint joint)
    (hboth : s.runBoth fuel fuel' first second = .ok one) :
    ∃ enough n ending,
      (s.entering first (body ++ joint ++ more)).run s.hosts enough = some (n, ending) ∧
      ∀ {o : Machine} {e : Ending .expression} {status : Status} {t : Session},
        s.Left o e status t → o.bare = n.bare → ending.ShownAlike e →
          SameOutcome one (status, t) := by
  rcases runBoth_cases hboth with ⟨t, hrun, rfl⟩ | ⟨t, hrun, hrun'⟩
  · obtain ⟨n, ending, hunit, hleft⟩ := left_of_runString hfirst hrest hrun
    cases hleft with
    | fault f =>
        obtain ⟨enough, hjoined⟩ :=
          comes_enteringUnit_append_of_fault rfl ⟨_, hunit⟩ (joint ++ more)
        rw [← List.append_assoc] at hjoined
        exact ⟨enough, n, .fault f, hjoined, sameOutcome_of_left rfl (.fault f)⟩
  · obtain ⟨n, ending, hunit, hleft⟩ := left_of_runString hfirst hrest hrun
    have hperform : s.perform fuel (.run first) = .ok (.status .success, t) := by
      rw [perform, hrun]
      rfl
    obtain ⟨n', ending', hunit', hleft'⟩ :=
      left_of_runString hsecond (atRest_perform hrest hperform) hrun'
    have hdiagnostics : s.diagnostics = t.diagnostics := by
      cases hleft
      rfl
    cases hleft with
    | value v =>
        obtain ⟨b, hbegin⟩ := exists_buffered (returned_of_run rfl hunit).1 stringUnitName second
        rw [entering, hbegin] at hunit'
        have hroom : (s.machine.compile stringUnitName first).2.running.nesting < maxNesting := by
          change s.machine.nesting < maxNesting
          rw [hrest.nesting]
          decide
        obtain ⟨left, ending'', hshown, enough, hjoined⟩ :=
          comes_enteringUnit_append rfl hroom hproper hjoint ⟨_, hunit⟩ ⟨_, hunit'⟩
        refine ⟨enough, n'.buffered left, ending'', hjoined, ?_⟩
        intro o e status u hwhole hbare halike
        exact sameOutcome_of_left hdiagnostics hleft' hwhole hbare (hshown.trans halike)

/-- A program and, behind a semicolon on a line of its own, another are one with the statements of
both and at most an empty one between them. Where a session without natives of the host finishes
running the first and then, unless that failed, the second, it finishes running the whole, with the
same outcome. -/
theorem joined_runs_as_both (first second : String) (scratch : TextBuffer) (body more : List Stmt)
    (hend : terminator ∉ first.toList) (hfirst : (programOfSource first scratch).1 = .ok body)
    (hsecond : (programOfSource second scratch).1 = .ok more) :
    (∃ whole joint, Joint joint ∧
      (programOfSource (first ++ "\n;\n" ++ second) scratch).1 = .ok whole ∧
      Stmt.bareAll whole = Stmt.bareAll (body ++ joint ++ more)) ∧
    ∀ (s : Session) (fuel fuel' : Nat) (one : Status × Session),
      s.Reachable → s.machine.store.HostFree → s.runBoth fuel fuel' first second = .ok one →
        (∃ fuel'' other, s.runString fuel'' (first ++ "\n;\n" ++ second) = .ok other) ∧
        ∀ (fuel'' : Nat) (other : Status × Session),
          s.runString fuel'' (first ++ "\n;\n" ++ second) = .ok other →
            SameOutcome one other := by
  have hjoined := programOfSource_joined hend hfirst hsecond
  refine ⟨hjoined, ?_⟩
  intro s fuel fuel' one hreachable hfree hboth
  have hrest := hreachable.atRest
  obtain ⟨whole, joint, hjoint, htext, hwhole⟩ := hjoined
  obtain ⟨front, stop, -, -, hbody⟩ := derives_of_programOfSource hfirst
  rw [programOfSource_fst_eq _ scratch .empty] at hfirst hsecond htext
  obtain ⟨enough, n, ending, hunit, houtcome⟩ :=
    exists_run_of_runBoth hrest hbody.proper hfirst hsecond hjoint hboth
  constructor
  · obtain ⟨n', ending', hunit'⟩ := exists_run_of_bareAll hrest hfree hwhole hunit
    exact ⟨enough, exists_runString_of_run htext hrest hunit'⟩
  · intro fuel'' other hrun
    obtain ⟨o, e, hunit', hleft⟩ := left_of_runString htext hrest hrun
    obtain ⟨hbare, halike⟩ := shownAlike_of_bareAll hrest hfree hwhole hunit hunit'
    exact houtcome hleft hbare halike

/-- A declaration that ends in a comment, and a call that prints what it declares. -/
theorem joined_runs_as_both_comment :
    ∃ (body more : List Stmt) (one other : Status × Session),
      terminator ∉ "var x = 'a' // end".toList ∧
      (programOfSource "var x = 'a' // end" .empty).1 = .ok body ∧
      (programOfSource "print(x)" .empty).1 = .ok more ∧
      blank.Reachable ∧ blank.machine.store.HostFree ∧
      blank.runBoth 60 60 "var x = 'a' // end" "print(x)" = .ok one ∧
      blank.runString 60 ("var x = 'a' // end" ++ "\n;\n" ++ "print(x)") = .ok other ∧
      SameOutcome one other := by
  have hend : terminator ∉ "var x = 'a' // end".toList := by decide +kernel
  have haccepted : (programOfSource "var x = 'a' // end" .empty).1.isOk = true := by decide +kernel
  have haccepted' : (programOfSource "print(x)" .empty).1.isOk = true := by decide +kernel
  have hends : (blank.runBoth 60 60 "var x = 'a' // end" "print(x)").isOk = true := by
    decide +kernel
  have hends' :
      (blank.runString 60 ("var x = 'a' // end" ++ "\n;\n" ++ "print(x)")).isOk = true := by
    decide +kernel
  obtain ⟨body, hbody⟩ := exists_of_isOk haccepted
  obtain ⟨more, hmore⟩ := exists_of_isOk haccepted'
  obtain ⟨one, hone⟩ := exists_of_isOk hends
  obtain ⟨other, hother⟩ := exists_of_isOk hends'
  refine ⟨body, more, one, other, hend, hbody, hmore, reachable_blank, hostFree_blank, hone,
    hother, ?_⟩
  exact ((joined_runs_as_both _ _ .empty body more hend hbody hmore).2 blank 60 60 one
    reachable_blank hostFree_blank hone).2 60 other hother

end Session

end ScriptHost
