import InterpreterLock.Backend
import InterpreterLock.Bootstrap
import InterpreterLock.Bootstrap.Alone
import InterpreterLock.Bootstrap.Spawn
import InterpreterLock.CommandLine
import InterpreterLock.CommandLine.Arguments
import InterpreterLock.CommandLine.Name
import InterpreterLock.CommandLine.Refusal
import InterpreterLock.Environment
import InterpreterLock.Event
import InterpreterLock.Event.Wait
import InterpreterLock.Gil
import InterpreterLock.Gil.Acquire
import InterpreterLock.Gil.Call
import InterpreterLock.Gil.Release
import InterpreterLock.Gil.Yield
import InterpreterLock.Host
import InterpreterLock.Ident
import InterpreterLock.Interpreter
import InterpreterLock.Interpreter.Call
import InterpreterLock.Interpreter.Config
import InterpreterLock.Json
import InterpreterLock.LockStatus
import InterpreterLock.Main
import InterpreterLock.Metrics
import InterpreterLock.Metrics.Report
import InterpreterLock.Mode
import InterpreterLock.NdArray
import InterpreterLock.Panic
import InterpreterLock.Progress
import InterpreterLock.Proofs.Bootstrap.Bracket
import InterpreterLock.Proofs.Bootstrap.Change
import InterpreterLock.Proofs.Bootstrap.Conservation
import InterpreterLock.Proofs.Bootstrap.Custody
import InterpreterLock.Proofs.Bootstrap.Departure
import InterpreterLock.Proofs.Bootstrap.Slots
import InterpreterLock.Proofs.Bootstrap.Spawning
import InterpreterLock.Proofs.Bootstrap.System
import InterpreterLock.Proofs.Bootstrap.Workshop
import InterpreterLock.Proofs.Census.Change
import InterpreterLock.Proofs.Census.Claims
import InterpreterLock.Proofs.Census.Idents
import InterpreterLock.Proofs.Census.System
import InterpreterLock.Proofs.Counters
import InterpreterLock.Proofs.Event.Delivery
import InterpreterLock.Proofs.Event.Signals
import InterpreterLock.Proofs.Event.Soundness
import InterpreterLock.Proofs.Event.System
import InterpreterLock.Proofs.Event.Tickets
import InterpreterLock.Proofs.Gil.Accounts
import InterpreterLock.Proofs.Gil.Aging
import InterpreterLock.Proofs.Gil.Arrivals
import InterpreterLock.Proofs.Gil.Blocks
import InterpreterLock.Proofs.Gil.Custody
import InterpreterLock.Proofs.Gil.Encodings
import InterpreterLock.Proofs.Gil.Entries
import InterpreterLock.Proofs.Gil.Exclusion
import InterpreterLock.Proofs.Gil.Handoff
import InterpreterLock.Proofs.Gil.Journal
import InterpreterLock.Proofs.Gil.Leftover
import InterpreterLock.Proofs.Gil.Refusals
import InterpreterLock.Proofs.Gil.Rounds
import InterpreterLock.Proofs.Gil.Settings
import InterpreterLock.Proofs.Gil.System
import InterpreterLock.Proofs.Gil.Verdicts
import InterpreterLock.Proofs.Gil.Waiting
import InterpreterLock.Proofs.Gil.Wakeup
import InterpreterLock.Proofs.Gil.Yielding
import InterpreterLock.Proofs.Ident
import InterpreterLock.Proofs.Interpreter.Call
import InterpreterLock.Proofs.Interpreter.Custody
import InterpreterLock.Proofs.Interpreter.Environment
import InterpreterLock.Proofs.Interpreter.Fork
import InterpreterLock.Proofs.Interpreter.Padding
import InterpreterLock.Proofs.Interpreter.Reports
import InterpreterLock.Proofs.Interpreter.System
import InterpreterLock.Proofs.Metrics.Reading
import InterpreterLock.Proofs.Names
import InterpreterLock.Proofs.NdArray.Offsets
import InterpreterLock.Proofs.NdArray.Sizes
import InterpreterLock.Proofs.Parking
import InterpreterLock.Proofs.Parking.Interruption
import InterpreterLock.Proofs.Parking.Sound
import InterpreterLock.Proofs.Progress
import InterpreterLock.Proofs.Registry
import InterpreterLock.Proofs.Run
import InterpreterLock.Proofs.Session.Deeds
import InterpreterLock.Proofs.Session.Gil
import InterpreterLock.Proofs.Session.Locks
import InterpreterLock.Proofs.Session.Replica
import InterpreterLock.Proofs.Session.Threads
import InterpreterLock.Proofs.Sums
import InterpreterLock.Proofs.Table
import InterpreterLock.Proofs.Text.Decimal
import InterpreterLock.Proofs.Text.LowerCase
import InterpreterLock.Proofs.ThreadLocal
import InterpreterLock.Proofs.ThreadLock.Counts
import InterpreterLock.Proofs.ThreadLock.Heeding
import InterpreterLock.Proofs.ThreadLock.Interruption
import InterpreterLock.Proofs.ThreadLock.Milestones
import InterpreterLock.Proofs.ThreadLock.Outcomes
import InterpreterLock.Proofs.ThreadLock.Rack
import InterpreterLock.Proofs.ThreadLock.System
import InterpreterLock.Proofs.ThreadLock.Wakeup
import InterpreterLock.Proofs.Time.Conversions
import InterpreterLock.Proofs.Time.Words
import InterpreterLock.Proofs.Workload.Calls
import InterpreterLock.Proofs.Workload.Panics
import InterpreterLock.Proofs.Workload.Schedule
import InterpreterLock.Proofs.Workload.Shares
import InterpreterLock.Proofs.Workload.Totals
import InterpreterLock.Registry
import InterpreterLock.Session.Schedule
import InterpreterLock.Session.Shelf
import InterpreterLock.Session.Statement
import InterpreterLock.Session.Step
import InterpreterLock.Session.World
import InterpreterLock.Table
import InterpreterLock.Text.Blank
import InterpreterLock.Text.CaseTable
import InterpreterLock.Text.Decimal
import InterpreterLock.Text.LowerCase
import InterpreterLock.Text.Plain
import InterpreterLock.ThreadError
import InterpreterLock.ThreadLocal
import InterpreterLock.ThreadLock
import InterpreterLock.Time
import InterpreterLock.Workload
import InterpreterLock.Workload.Report
