import ScriptHost.Machine.Control
import ScriptHost.Value.Conversion

/-!
Native functions by which a host lets scripts reach the machine: call with a receiver, catch or
raise a fault, list the properties of an object, compile a unit, and ask whether a run is under way.
-/

namespace ScriptHost.Reflection

/-- An argument, undefined where there is none. -/
def argument (arguments : List Value) (n : Nat) : Value := arguments[n]?.getD .undefined

/-- Calls the first argument on the second with the others. -/
def call (arguments : List Value) (resume : Except Fault Value → HostScript) : HostScript :=
  .invoke (argument arguments 1) (argument arguments 0) (arguments.drop 2) resume

/-- The properties of an object that describes a fault. -/
def describeFault (f : Fault) : Bindings :=
  let place := match f.span with
    | some s => [("start", .number s.start.toFloat), ("end", .number s.stop.toFloat)]
    | none => []
  [("kind", .string f.kind.label), ("message", .string f.message)] ++ place

/-- Hands on what a call came to. -/
def handOn : Except Fault Value → HostScript
  | .ok v => .finish v
  | .error f => .fail f

/-- Turns the fault that a call came to into an object. -/
def catchFault : Except Fault Value → HostScript
  | .ok v => .finish v
  | .error f => .create (describeFault f) .finish

/-- The names, in the order in which they are installed. -/
def names : List String :=
  ["host_call", "host_try", "host_fault", "host_keys", "host_compile", "host_armed"]

/-- What the names stand for; any other name stands for a function that does nothing. -/
def table : HostTable := fun name arguments =>
  match name with
  | "host_call" => call arguments handOn
  | "host_try" => call arguments catchFault
  | "host_fault" =>
    .raise (.ofName (argument arguments 0).display) (argument arguments 1).display
  | "host_keys" =>
    match argument arguments 0 with
    | .object id => .properties id fun b => .finish (.string (",".intercalate b.keys))
    | _ => .finish .null
  | "host_compile" =>
    .compile (argument arguments 0).display (argument arguments 1).display fun
      | .ok v => .finish v
      | .error e => .finish (.string e.display)
  | "host_armed" => .armed fun armed => .finish (.bool armed)
  | _ => .finish .undefined

end ScriptHost.Reflection
