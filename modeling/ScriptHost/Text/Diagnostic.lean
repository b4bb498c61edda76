import ScriptHost.Text.Span

/-!
What is wrong with a text that is no program, and where.
-/

namespace ScriptHost

/-- The stage that refused the text. -/
inductive DiagnosticKind
  | lexer
  | parser
  deriving DecidableEq, Repr

/-- A refusal of a source text: the stage, the message, and the place if it was given one. -/
structure Diagnostic where
  kind : DiagnosticKind
  message : String
  span? : Option Span
  deriving DecidableEq, Repr

namespace Diagnostic

/-- A refusal without a place. -/
def ofMessage (kind : DiagnosticKind) (message : String) : Diagnostic := ⟨kind, message, none⟩

/-- Places a refusal. -/
def locate (d : Diagnostic) (span : Span) : Diagnostic := { d with span? := some span }

/-- The message, followed by the byte offsets of the place if there is one. -/
def display (d : Diagnostic) : String :=
  match d.span? with
  | some span => d.message ++ " (" ++ toString span.start ++ ".." ++ toString span.stop ++ ")"
  | none => d.message

/-- Line and column of the place within the refused text. -/
def position? (d : Diagnostic) (source : List Char) : Option Position :=
  d.span?.map fun span => .ofOffset source span.start

/-- The place, or where texts begin if there is none. -/
def span (d : Diagnostic) : Span := d.span?.getD ⟨0, 0⟩

/-- Line and column of the place, or where texts begin. -/
def position (d : Diagnostic) (source : List Char) : Position :=
  Position.ofOffset source d.span.start

theorem position?_of_span? {d : Diagnostic} {span : Span} (h : d.span? = some span)
    (source : List Char) : d.position? source = some (d.position source) := by
  rw [position?, position, Diagnostic.span, h]
  rfl

end Diagnostic

end ScriptHost
