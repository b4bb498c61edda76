import ScriptHost.Machine.Basic

/-!
What the arguments of a command line ask for. Options stand before the command; an argument that
begins with a dash is an option unless it is a lone dash or follows a double dash. The first
argument that is wrong, or that asks for help, decides. An option's value that is an argument of its
own is checked only at the next option or at the end, so that a command after it can still ask for
help.
-/

namespace ScriptHost.CommandLine

/-- What is to be done with scripts. -/
inductive Command
  | run (scripts : List String)
  | eval (source : String)
  | repl
  deriving DecidableEq, Repr

/-- What help is asked for. -/
inductive Topic
  | overview
  | run
  | eval
  | repl
  | help
  deriving DecidableEq, Repr

/-- What arguments that lead to no command ask for; misuse is an ill-formed command line. -/
inductive Stop
  | help (topic : Topic)
  | version
  | misuse
  deriving DecidableEq, Repr

/-- A command with the limits to keep to. -/
structure Request where
  config : Config
  command : Command
  deriving DecidableEq, Repr

/-- The options read so far. -/
structure Options where
  maxCallDepth : Option Nat
  logLevel : Option String

namespace Options

/-- No options. -/
def none : Options := ⟨.none, .none⟩

/-- The limits that the options ask for. -/
def config (o : Options) : Config :=
  Config.default.withMaxCallDepth (o.maxCallDepth.getD Config.default.maxCallDepth)

end Options

/-- Reads a natural number of at most 64 bits, with a plus sign or without. -/
def readCount? (text : String) : Option Nat :=
  let digits := match text.toList with
    | '+' :: cs => cs
    | cs => cs
  if digits.isEmpty || !digits.all Char.isDigit then none
  else
    let value := digits.foldl (fun n c => n * 10 + (c.toNat - '0'.toNat)) 0
    if value < 0x10000000000000000 then some value else none

/-- Whether an argument is an option, and not a value. -/
def isOption (argument : String) : Bool :=
  argument.startsWith "-" && argument != "-"

/-- Whether an option asks for help: by its long name, or by its letter before any others. -/
def asksForHelp (argument : String) : Bool :=
  argument = "--help" || argument.startsWith "-h"

/-- What an option after a command name asks for: help, as no other option is known there. -/
def helpOption (topic : Topic) (argument : String) : Stop :=
  if asksForHelp argument then .help topic else .misuse

/-- Whether an option asks for the version. -/
def asksForVersion (argument : String) : Bool :=
  argument = "--version" || argument.startsWith "-V"

/-- The arguments of `run`: one script or more. -/
def scripts (done : List String) : List String → Except Stop Command
  | [] => if done.isEmpty then .error .misuse else .ok (.run done.reverse)
  | "--" :: rest =>
    let all := done.reverse ++ rest
    if all.isEmpty || rest.contains "" then .error .misuse else .ok (.run all)
  | argument :: rest =>
    if isOption argument then .error (helpOption .run argument)
    else if argument = "" then .error .misuse
    else scripts (argument :: done) rest

/-- The arguments of `eval` after the source text, if there was one. -/
def sourceText : Option String → List String → Except Stop Command
  | some source, [] => .ok (.eval source)
  | none, [] => .error .misuse
  | some source, ["--"] => .ok (.eval source)
  | none, ["--", source] => .ok (.eval source)
  | _, "--" :: _ => .error .misuse
  | source, argument :: rest =>
    if isOption argument then .error (helpOption .eval argument)
    else
      match source with
      | none => sourceText (some argument) rest
      | some _ => .error .misuse

/-- The arguments of `repl`: none. -/
def noArguments : List String → Except Stop Command
  | [] | ["--"] => .ok .repl
  | argument :: _ => .error (if isOption argument then helpOption .repl argument else .misuse)

/-- The arguments of `help`: at most one command. -/
def helpTopic : List String → Stop
  | [] => .help .overview
  | ["run"] => .help .run
  | ["eval"] => .help .eval
  | ["repl"] => .help .repl
  | ["help"] => .help .help
  | _ => .misuse

/-- A command name with its arguments. -/
def command (name : String) (arguments : List String) : Except Stop Command :=
  match name with
  | "run" => scripts [] arguments
  | "eval" => sourceText none arguments
  | "repl" => noArguments arguments
  | "help" => .error (helpTopic arguments)
  | _ => .error .misuse

/-- An option with a value. -/
structure Setting where
  name : String
  value : String
  deriving DecidableEq, Repr

/-- Whether an option takes a value. -/
def takesValue (name : String) : Bool :=
  name = "--max-call-depth" || name = "--log-level"

/-- Gives an option its value, unless it has one already or the value does not suit it. -/
def Options.set (o : Options) (setting : Setting) : Except Stop Options :=
  match setting.name with
  | "--max-call-depth" =>
    match o.maxCallDepth, readCount? setting.value with
    | .none, some depth => .ok { o with maxCallDepth := some depth }
    | _, _ => .error .misuse
  | "--log-level" =>
    match o.logLevel with
    | .none => .ok { o with logLevel := some setting.value }
    | some _ => .error .misuse
  | _ => .error .misuse

/-- Gives the last option its value if that is still to be done. -/
def Options.settle (o : Options) : Option Setting → Except Stop Options
  | .none => .ok o
  | some setting => o.set setting

/-- The name of an option and the value after its equals sign, if there is one. -/
def splitOption (argument : String) : String × Option String :=
  let cs := argument.toList
  let name := String.ofList (cs.takeWhile (· != '='))
  match cs.dropWhile (· != '=') with
  | [] => (name, none)
  | _ :: value => (name, some (String.ofList value))

/-- What the arguments ask for after the options read so far, the last of which may still have its
value to be checked. -/
def requestAfter (o : Options) (last : Option Setting) : List String → Except Stop Request
  | [] | ["--"] => do
    let o ← o.settle last
    return ⟨o.config, .repl⟩
  | argument :: rest =>
    if !isOption argument then do
      let command ← command argument rest
      let o ← o.settle last
      return ⟨o.config, command⟩
    else do
      let o ← o.settle last
      if asksForHelp argument then .error (.help .overview)
      else if asksForVersion argument then .error .version
      else
        match splitOption argument, rest with
        | (name, some value), rest => requestAfter (← o.set ⟨name, value⟩) none rest
        | (name, none), value :: rest =>
          if takesValue name && !isOption value then requestAfter o (some ⟨name, value⟩) rest
          else .error .misuse
        | (_, none), [] => .error .misuse

/-- What the arguments of a command line ask for. -/
def request (arguments : List String) : Except Stop Request :=
  requestAfter .none none arguments

end ScriptHost.CommandLine
