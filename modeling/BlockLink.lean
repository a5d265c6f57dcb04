import BlockLink.Device.List
import BlockLink.Device.Script
import BlockLink.Main
import BlockLink.Proofs.Event
import BlockLink.Proofs.Program
import BlockLink.Proofs.Registry
import BlockLink.Proofs.Session.Compile
import BlockLink.Proofs.Session.Rerun
import BlockLink.Proofs.Session.Window
import BlockLink.Proofs.SortedMap
import BlockLink.Proofs.Upload.InStep
import BlockLink.Proofs.Session.Highlight
import BlockLink.Proofs.Session.Identity
import BlockLink.Proofs.Session.Failure
import BlockLink.Proofs.Compile.Run
import BlockLink.Proofs.Pins.Execution
import BlockLink.Proofs.Pins.Guards
import BlockLink.Proofs.Lua.Fragment
import BlockLink.Proofs.Lua.Pattern
import BlockLink.Proofs.Lua.Template
import BlockLink.Proofs.Lua.Structure
import BlockLink.Proofs.Link.Move
import BlockLink.Proofs.Link.Watchdog
import BlockLink.Proofs.Compile.Diagnostics
import BlockLink.Proofs.Compile.Source
import BlockLink.Proofs.CommandLine
import BlockLink.Proofs.Device.Trampoline
import BlockLink.Proofs.Session.BoardRun
import BlockLink.Proofs.WriteGate
import BlockLink.Proofs.Link.Writers
import BlockLink.Proofs.Link.WakeUp
import BlockLink.Proofs.Pins.Operands
import BlockLink.Proofs.Session.Removed
import BlockLink.Proofs.Pins.Computed
import BlockLink.Proofs.Pins.Change
import BlockLink.Proofs.Pins.Deferred
import BlockLink.Proofs.Pins.Safety
import BlockLink.Proofs.Compile.Yields
import BlockLink.Proofs.Lua.Opening
import BlockLink.Proofs.Lua.ShortString
import BlockLink.Proofs.Lua.Token
import BlockLink.Proofs.Lua.RawCode
import BlockLink.Proofs.Session.Evaluation
import BlockLink.Proofs.Event.Vocabulary
import BlockLink.Proofs.Event.Variable
import BlockLink.Proofs.Compile.Sequence
import BlockLink.Proofs.Compile.Grouping
import BlockLink.Proofs.Lua.Name
import BlockLink.Proofs.Board
import BlockLink.Proofs.Json.Record
import BlockLink.Proofs.Block.RoundTrip
import BlockLink.Proofs.Device.Deeds
import BlockLink.Proofs.Device.Lifetime
import BlockLink.Proofs.Lua.Semantics
import BlockLink.Proofs.Device.ListFunctions
import BlockLink.Proofs.SortedMap.Edits
import BlockLink.Proofs.Registry.Updates
import BlockLink.Proofs.Decimal.Whole
import BlockLink.Proofs.Literal
