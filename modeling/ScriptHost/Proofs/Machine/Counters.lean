import ScriptHost.Proofs.Machine.Course
import ScriptHost.Proofs.Machine.Moves

/-!
The two counters of a machine. All through the run of a unit they number the frames on the stack
that give something back: the calls that are under way and the phrases that are being evaluated. So
neither sort of frame is ever there more often than its limit allows.
-/

namespace ScriptHost

variable {p q last : Phrase} {hosts : HostTable}

theorem Progress.leads_raise {P : Situation last → Prop} {Q : Machine → Ending last → Prop}
    {m : Machine} {k : Stack p last} (kind : FaultKind) (message : String) (span : Option Span)
    (hnext : P ⟨p, .fault ⟨kind, message, span⟩, k, m⟩)
    (hhalt : ∀ text, Q m (.stranded text)) : (raise m k kind message span).Leads P Q := by
  unfold raise
  split
  · rename_i f hraise
    obtain ⟨-, rfl⟩ := Trap.raise_eq_ok_iff.mp hraise
    exact hnext
  · exact hhalt _

theorem Frame.calls_of_not_restores {frame : Frame p q} (h : ¬ frame.Restores) :
    frame.calls = 0 := by
  cases frame <;> first | rfl | exact absurd trivial h

theorem Frame.entered_of_not_restores {frame : Frame p q} (h : ¬ frame.Restores) :
    frame.entered = 0 := by
  cases frame <;> first | rfl | exact absurd trivial h

/-- The counters of a machine number the calls and the evaluations that the frames tell of, and
none is beyond its limit. -/
structure Machine.Counts (limit : Nat) (k : Stack p last) (m : Machine) : Prop where
  depth : m.depth = k.calls
  nesting : m.nesting = k.entered
  maxCallDepth : m.maxCallDepth = limit
  depth_le : m.depth ≤ limit
  nesting_le : m.nesting ≤ maxNesting

/-- The counters are in accord with the frames. -/
def Situation.Counted (limit : Nat) (s : Situation last) : Prop := s.machine.Counts limit s.stack

section Steps

variable {limit : Nat} {m n : Machine} {k : Stack p last}

namespace Machine.Counts

theorem of_context_eq (h : m.Counts limit k) (hn : n.context = m.context) : n.Counts limit k := by
  simp only [Machine.context, Context.mk.injEq] at hn
  obtain ⟨-, -, hdepth, hnesting, -, -, hmax⟩ := hn
  exact ⟨hdepth.trans h.depth, hnesting.trans h.nesting, hmax.trans h.maxCallDepth,
    hdepth ▸ h.depth_le, hnesting ▸ h.nesting_le⟩

/-- A frame that gives nothing back is not counted. -/
theorem push {frame : Frame q p} (h : m.Counts limit k) (hframe : ¬ frame.Restores) :
    m.Counts limit (.cons frame k) := by
  refine ⟨?_, ?_, h.maxCallDepth, h.depth_le, h.nesting_le⟩
  · rw [h.depth, Stack.calls, Frame.calls_of_not_restores hframe]
    rfl
  · rw [h.nesting, Stack.entered, Frame.entered_of_not_restores hframe]
    rfl

/-- What a frame gives back is what was counted for it. -/
theorem release {frame : Frame q p} (h : m.Counts limit (.cons frame k)) :
    (frame.release m).Counts limit k := by
  obtain ⟨hdepth, hnesting, hmax, hdepth_le, hnesting_le⟩ := h
  cases frame with
  | leave =>
      refine ⟨hdepth, ?_, hmax, hdepth_le, Nat.le_trans (Nat.sub_le _ _) hnesting_le⟩
      exact congrArg (· - 1) hnesting
  | returnTo environment receiver isUnit =>
      refine ⟨?_, hnesting, hmax, Nat.le_trans (Nat.sub_le _ _) hdepth_le, hnesting_le⟩
      exact congrArg (· - 1) hdepth
  | _ => exact ⟨hdepth, hnesting, hmax, hdepth_le, hnesting_le⟩

theorem pop {frame : Frame q p} (h : m.Counts limit (.cons frame k))
    (hframe : ¬ frame.Restores) : m.Counts limit k := by
  have hreleased := h.release
  rwa [Frame.release_of_not_restores hframe] at hreleased

theorem enterPhrase (h : m.Counts limit k) (hroom : m.nesting < maxNesting) :
    { m with nesting := m.nesting + 1 }.Counts limit (.cons .leave k) :=
  ⟨h.depth, congrArg (· + 1) h.nesting, h.maxCallDepth, h.depth_le, hroom⟩

theorem inside {k : Stack .expression last} (h : m.Counts limit k)
    (hroom : m.depth < m.maxCallDepth) (receiver : Value) (closure : Closure)
    (arguments : List Value) :
    (m.inside receiver closure arguments).Counts limit
      (.cons (.returnTo m.environment m.receiver closure.isUnit) k) := by
  have hdepth : m.depth + 1 = k.calls + 1 := congrArg (· + 1) h.depth
  have hle : m.depth + 1 ≤ limit := h.maxCallDepth ▸ hroom
  constructor
  · rw [depth_inside]
    exact hdepth
  · rw [nesting_inside]
    exact h.nesting
  · rw [maxCallDepth_inside]
    exact h.maxCallDepth
  · rw [depth_inside]
    exact hle
  · rw [nesting_inside]
    exact h.nesting_le

theorem leads_raise (h : m.Counts limit k) (kind : FaultKind) (message : String)
    (span : Option Span) :
    (Progress.raise m k kind message span).Leads (Situation.Counted limit) fun _ _ => True :=
  Progress.leads_raise kind message span h fun _ => trivial

theorem leads_onward {progress : Progress last} {work : Nat} (h : m.Counts limit k)
    (honward : progress.Onward m k work) :
    progress.Leads (Situation.Counted limit) fun _ _ => True := by
  cases honward with
  | moved hn => exact h.of_context_eq hn.context
  | pushed hn hframe => exact (h.of_context_eq hn.context).push hframe
  | raised b kind message span =>
      exact leads_raise (h.of_context_eq (n := m.buffered b) rfl) kind message span

end Machine.Counts

namespace Situation

/-- Each step keeps the counters in accord with the frames. -/
theorem counted_step (hosts : HostTable) {s : Situation last} (hfree : s.HostFree)
    (hs : s.Counted limit) : (s.step hosts).Leads (Counted limit) fun _ _ => True := by
  have hmoves := moves_step hosts hfree
  generalize s.step hosts = progress at hmoves
  cases hmoves with
  | tooDeep | tooMany => exact Machine.Counts.leads_raise hs _ _ _
  | begun hphrase hroom hwork honward =>
      exact (Machine.Counts.enterPhrase hs hroom).leads_onward honward
  | entered hroom => exact Machine.Counts.inside hs hroom _ _ _
  | went hbetween honward => exact Machine.Counts.leads_onward hs honward
  | resumed hresult hf hframe honward => exact (Machine.Counts.pop hs hframe).leads_onward honward
  | again => exact (Machine.Counts.pop hs id).push id
  | returned | unwound => exact Machine.Counts.release hs
  | ended => trivial

/-- In every situation that the run of a unit passes through, the counters are in accord with the
frames. -/
theorem counted_of_passes {m : Machine} (hrest : m.AtRest) (hfree : m.HostFree) {u : ScriptUnit}
    {t : Situation .expression} (h : (ofUnit m u).Passes hosts t) :
    t.HostFree ∧ t.Counted m.maxCallDepth := by
  induction h with
  | refl =>
      refine ⟨hostFree_ofUnit hfree u, hrest.depth, hrest.nesting, rfl, ?_, ?_⟩
      · exact hrest.depth ▸ Nat.zero_le _
      · exact hrest.nesting ▸ Nat.zero_le _
  | tail hpasses hstep ih =>
      have hnext := hostFree_step hosts ih.1
      have hcounted := counted_step hosts ih.1 ih.2
      rw [hstep] at hnext hcounted
      exact ⟨hnext, hcounted⟩

end Situation

end Steps

end ScriptHost
