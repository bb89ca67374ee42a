import Rsmpv.Lib.Transition
import Rsmpv.Lib.ThreadPool
import Rsmpv.Lib.Unwind
import Rsmpv.Lib.Utf8
import Rsmpv.Lib.Arena
import Rsmpv.Lib.Trace
import Rsmpv.Lib.Account
import Rsmpv.Lib.Ownership
import Rsmpv.Lib.Atomic
import Rsmpv.Sys
import Rsmpv.Error
import Rsmpv.Slot.Model
import Rsmpv.Slot.Locks
import Rsmpv.Slot.Ledger
import Rsmpv.Slot.Agreement
import Rsmpv.Slot.Release
import Rsmpv.Slot.Linearize
import Rsmpv.Slot.Replaced
import Rsmpv.Stream.Model
import Rsmpv.Stream.Trampolines
import Rsmpv.Unwinding
import Rsmpv.Stream.Sessions
import Rsmpv.Stream.IoStream
import Rsmpv.Stream.File
import Rsmpv.Stream.Probe
import Rsmpv.Stream.Registry
import Rsmpv.Node.Model
import Rsmpv.Node.RoundTrip
import Rsmpv.Node.WellFormed
import Rsmpv.Node.Property
import Rsmpv.Node.Counts
import Rsmpv.Node.Readable
import Rsmpv.Event.Model
import Rsmpv.Event.Poll
import Rsmpv.Event.Contract
import Rsmpv.Lifetime.World
import Rsmpv.Lifetime.ClientCode
import Rsmpv.Lifetime.Player
import Rsmpv.Lifetime.Handles
import Rsmpv.Lifetime.Accounts
import Rsmpv.Lifetime.Lifecycle
import Rsmpv.Lifetime.Render
import Rsmpv.Lifetime.Contexts
import Rsmpv.Lifetime.RenderCode
import Rsmpv.Lifetime.Borrowed
import Rsmpv.Lifetime.Owned
import Rsmpv.Command
import Rsmpv.Render.Software
import Rsmpv.Api.Model
import Rsmpv.Api.Contract
import Rsmpv.Api.Safety
import Rsmpv.Api.Calls
import Rsmpv.Api.Values
import Rsmpv.Api.Requests
import Rsmpv.Render.Params
import Rsmpv.Stream.Defaults
import Rsmpv.Event.Progress
import Rsmpv.Slot.Solo
import Rsmpv.Slot.Sequential
import Rsmpv.Slot.Reentrant
