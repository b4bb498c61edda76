import ScriptHost.Text.Span

/-!
Faults of a running script and the trap that takes them. A fault may be raised only while the trap
is armed, and the trap is armed for one run at a time.
-/

namespace ScriptHost

/-- The sorts of faults. -/
inductive FaultKind
  | reference
  | type
  | syntactic
  | range
  | internal
  deriving DecidableEq, Repr

/-- How the sort of a fault is shown. -/
def FaultKind.label : FaultKind → String
  | .reference => "ReferenceError"
  | .type => "TypeError"
  | .syntactic => "SyntaxError"
  | .range => "RangeError"
  | .internal => "InternalError"

/-- The sort of fault of a name; every unknown name means an internal one. -/
def FaultKind.ofName : String → FaultKind
  | "Reference" => .reference
  | "Type" => .type
  | "Syntax" => .syntactic
  | "Range" => .range
  | _ => .internal

/-- What ended a run, and where in the source text if that is known. -/
structure Fault where
  kind : FaultKind
  message : String
  span : Option Span
  deriving DecidableEq, Repr

namespace Fault

/-- Label and message. -/
def display (f : Fault) : String := f.kind.label ++ ": " ++ f.message

/-- Places a fault; the first place it was given stays. -/
def locate (f : Fault) (span : Span) : Fault := { f with span := f.span.or (some span) }

theorem locate_locate (f : Fault) (s t : Span) : (f.locate s).locate t = f.locate s := by
  cases f with
  | mk kind message span => cases span <;> rfl

end Fault

/-- Whether a run is under way that faults can end. -/
structure Trap where
  armed : Bool
  deriving DecidableEq, Repr

namespace Trap

/-- The trap between runs. -/
def idle : Trap := ⟨false⟩

/-- Begins a run, unless one is under way. -/
def arm (t : Trap) : Except Fault Trap :=
  if t.armed then .error ⟨.internal, "abort channel is already armed by a running unit", none⟩
  else .ok ⟨true⟩

/-- Ends a run. -/
def disarm (_ : Trap) : Trap := idle

/-- Hands a fault to the run under way. Without one there is nothing to return to, and the answer
tells of the fault that is stranded. -/
def raise (t : Trap) (f : Fault) : Except String Fault :=
  if t.armed then .ok f else .error ("fault raised with no armed run: " ++ f.display)

theorem raise_eq_ok_iff {t : Trap} {f g : Fault} : t.raise f = .ok g ↔ t.armed = true ∧ f = g := by
  cases h : t.armed <;> simp [raise, h]

end Trap

end ScriptHost
