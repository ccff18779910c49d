import UnixProgramming.Library.Transition
import UnixProgramming.Library.Monitor
import UnixProgramming.Library.Descriptors
import UnixProgramming.ProducerConsumer.Model
import UnixProgramming.ProducerConsumer.Conservation
import UnixProgramming.ProducerConsumer.Wakeup
import UnixProgramming.ThreadServer.Model
import UnixProgramming.ThreadServer.Steps
import UnixProgramming.ThreadServer.Slots
import UnixProgramming.ThreadServer.Connections
import UnixProgramming.ThreadServer.Accounting
import UnixProgramming.ThreadServer.Suspend
import UnixProgramming.ProcessServer.Model
import UnixProgramming.ProcessServer.Handover
import UnixProgramming.EpollReactor.Model
import UnixProgramming.EpollReactor.Handlers
import UnixProgramming.EpollReactor.Consistency
import UnixProgramming.EpollReactor.Loop
import UnixProgramming.EpollReactor.Faults
import UnixProgramming.EpollReactor.Orphans
import UnixProgramming.ThreadServer.Served
import UnixProgramming.ProcessServer.Tree
import UnixProgramming.ThreadServer.Exits
import UnixProgramming.Library.Signals
import UnixProgramming.ProcessServer.Reaping
import UnixProgramming.Library.Census
import UnixProgramming.Library.Roster
import UnixProgramming.MultiJoin.Model
import UnixProgramming.MultiJoin.Sweep
import UnixProgramming.JoinTerm.Accounting
import UnixProgramming.JoinTerm.Progress
import UnixProgramming.HSocket.Model
import UnixProgramming.HSocket.Transport
import UnixProgramming.LineEcho.Model
import UnixProgramming.LineEcho.InStep
import UnixProgramming.Abort.Model
import UnixProgramming.Abort.Outcome
import UnixProgramming.HSocket.Calls
import UnixProgramming.Library.Rounds
import UnixProgramming.HSocket.Transfers
import UnixProgramming.HSocket.Closing
import UnixProgramming.HSocket.Interrupts
import UnixProgramming.Polling.Model
import UnixProgramming.Polling.Ledger
import UnixProgramming.Polling.Exit
import UnixProgramming.Polling.Schedules
import UnixProgramming.FcntlLocking.Model
import UnixProgramming.FcntlLocking.Lines
import UnixProgramming.FcntlLocking.Agreement
import UnixProgramming.Abort.Handling
import UnixProgramming.Abort.Masks
import UnixProgramming.HSocket.Counts
import UnixProgramming.EpollReactor.Alternation
import UnixProgramming.Library.Copies
import UnixProgramming.LineEcho.Server
import UnixProgramming.Servers.Responses
import UnixProgramming.LineEcho.Client
import UnixProgramming.Servers.Printing
import UnixProgramming.ThreadCleanup.Model
import UnixProgramming.ThreadCleanup.Termination
import UnixProgramming.ThreadServer.Stop
import UnixProgramming.ThreadCleanup.Release
import UnixProgramming.MultiJoin.Table
import UnixProgramming.MultiJoin.OneSweep
import UnixProgramming.MultiJoin.Completion
import UnixProgramming.JoinTerm.Completion
import UnixProgramming.ThreadInc.Locked
import UnixProgramming.FcntlLocking.Stores
import UnixProgramming.ThreadInc.Bounds
import UnixProgramming.ThreadInc.Schedules
import UnixProgramming.Killfrom.Model
import UnixProgramming.Killfrom.Targets
import UnixProgramming.EpollReactor.Dispatch
import UnixProgramming.FcntlLocking.Format
import UnixProgramming.FcntlLocking.Typed
import UnixProgramming.ProcessServer.Decisions
import UnixProgramming.FcntlLocking.Records
import UnixProgramming.FcntlLocking.Exclusion
import UnixProgramming.FcntlLocking.Waiting
import UnixProgramming.ProcessServer.Reuse
import UnixProgramming.ReadersWriters.Coherence
import UnixProgramming.ReadersWriters.Progress
import UnixProgramming.SimpleSuspend.Conservation
import UnixProgramming.EpollReactor.Sessions
import UnixProgramming.EpollReactor.Realised
import UnixProgramming.ProducerConsumer.Ledger
import UnixProgramming.ProducerConsumer.Builds
import UnixProgramming.ProducerConsumer.Plain
import UnixProgramming.ProducerConsumer.Finish
