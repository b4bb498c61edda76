import ScriptHost.Text.Utf8
import ScriptHost.Program.Parser
import ScriptHost.Value.Conversion
import ScriptHost.Heap.Counted
import ScriptHost.Machine.Reflection
import ScriptHost.Session.Disk
import ScriptHost.Main
import ScriptHost.Fault
import ScriptHost.Output
import ScriptHost.Proofs.Machine.Context
import ScriptHost.Proofs.Session.Operation
import ScriptHost.Proofs.Session.Rest
import ScriptHost.Proofs.Machine.HostFree
import ScriptHost.Proofs.Token.Scratch
import ScriptHost.Proofs.Machine.Lockstep
import ScriptHost.Proofs.Session.Evaluation
import ScriptHost.Proofs.Program.Reading
import ScriptHost.Proofs.Program.Tracking
import ScriptHost.Proofs.Program.Respan
import ScriptHost.Proofs.Program.ParserTracking
import ScriptHost.Proofs.Token.Extent
import ScriptHost.Proofs.Token.Terminator
import ScriptHost.Proofs.Program.Refusal
import ScriptHost.Proofs.Program.Levels
import ScriptHost.Proofs.Program.Room
import ScriptHost.Proofs.Program.Nesting
import ScriptHost.Proofs.Program.DepthLimit
import ScriptHost.Proofs.Program.Reads
import ScriptHost.Proofs.Program.Attained
import ScriptHost.Proofs.Machine.Alike
import ScriptHost.Proofs.Machine.Course
import ScriptHost.Proofs.Session.Event
import ScriptHost.Proofs.Session.History
import ScriptHost.Proofs.Session.Trap
import ScriptHost.Proofs.Session.FailedLoad
import ScriptHost.Proofs.Session.FromFile
import ScriptHost.Proofs.Program.Listing
import ScriptHost.Proofs.Program.RoundTrip
import ScriptHost.Proofs.Session.Layout
import ScriptHost.Proofs.Session.Joined
import ScriptHost.Proofs.Program.Work
import ScriptHost.Proofs.Store.Growth
import ScriptHost.Proofs.Machine.CallLimit
import ScriptHost.Proofs.Machine.Moves
import ScriptHost.Proofs.Machine.Counters
import ScriptHost.Proofs.Machine.Policy
import ScriptHost.Proofs.Machine.Termination
import ScriptHost.Proofs.Machine.FailStop
import ScriptHost.Proofs.Machine.Layout
import ScriptHost.Proofs.Machine.Activation
import ScriptHost.Proofs.Session.Scripted
import ScriptHost.Proofs.Heap.History
import ScriptHost.Proofs.Program.Precedence
import ScriptHost.Proofs.Session.Ownership
import ScriptHost.Proofs.Session.StaticScope
import ScriptHost.Proofs.Program.InRange
import ScriptHost.Proofs.Session.Sourced
import ScriptHost.Proofs.Machine.CallValue
import ScriptHost.Proofs.Program.Leaves
import ScriptHost.Proofs.Store.Forest
import ScriptHost.Proofs.Session.Retained
import ScriptHost.Proofs.Program.Terminated
import ScriptHost.Proofs.Text.Offset
import ScriptHost.Proofs.Session.Literal
import ScriptHost.Proofs.Program.ParserProgress
