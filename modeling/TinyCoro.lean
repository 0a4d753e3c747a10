import TinyCoro.Context.CompletesOnce
import TinyCoro.Context.Wakeup
import TinyCoro.Comp.WaitGroupDrain
import TinyCoro.Comp.WaitGroupBarrier
import TinyCoro.Comp.LatchOpens
import TinyCoro.Task.LifecycleExact
import TinyCoro.Task.Nested
import TinyCoro.Task.Driven
import TinyCoro.Comp.Mutex
import TinyCoro.Comp.MutexOwner
import TinyCoro.Comp.MutexGuard
import TinyCoro.Library.FifoLock
import TinyCoro.Comp.MutexLists
import TinyCoro.Comp.MutexMoves
import TinyCoro.Comp.MutexInvariant
import TinyCoro.Comp.MutexFifo
import TinyCoro.Comp.MutexWaits
import TinyCoro.Comp.CondVarWaiters
import TinyCoro.Comp.CondVarReady
import TinyCoro.Comp.MutexUnlock
import TinyCoro.Comp.CondVarNotify
import TinyCoro.Engine.Rings
import TinyCoro.Engine.Accounting
import TinyCoro.Engine.Buffer
import TinyCoro.Comp.Event
import TinyCoro.Library.WaitList
import TinyCoro.Comp.EventSet
import TinyCoro.Comp.EventWakes
import TinyCoro.Comp.Touched
import TinyCoro.Context.Standalone
import TinyCoro.Engine.FullQueue
import TinyCoro.Scheduler.Loop
import TinyCoro.Scheduler.Steps
import TinyCoro.Library.Tally
import TinyCoro.Scheduler.Tokens
import TinyCoro.Scheduler.Watched
import TinyCoro.Scheduler.NeverHangs
import TinyCoro.Scheduler.StopDelivery
import TinyCoro.Scheduler.Quiescence
import TinyCoro.Library.Membership
import TinyCoro.Program.Component
import TinyCoro.Program.Interleaving
import TinyCoro.Program.WaitCounts
import TinyCoro.Program.WorkerSteps
import TinyCoro.Program.WaitBalance
import TinyCoro.Program.Frames
import TinyCoro.Comp.Latch
import TinyCoro.Program.EventFrames
import TinyCoro.Program.LatchFrames
import TinyCoro.Program.Components
import TinyCoro.Time.Timer
import TinyCoro.Scheduler.PreLoop
import TinyCoro.Scheduler.BusyCount
import TinyCoro.Task.PodContainer
import TinyCoro.Library.Lease
import TinyCoro.Io.FixedFds
import TinyCoro.Library.CountedLoop
import TinyCoro.Context.Sized
import TinyCoro.Context.RingBound
import TinyCoro.Context.EventfdFields
import TinyCoro.Io.FixedLeases
import TinyCoro.Library.Dispatch
import TinyCoro.Scheduler.Order
import TinyCoro.Comp.SpinLock
import TinyCoro.Comp.CondVarSections
import TinyCoro.Comp.CondVarLocks
import TinyCoro.Library.UniqueOwner
import TinyCoro.Task.Ownership
import TinyCoro.Task.OwnershipSafe
import TinyCoro.Program.OnePlace
import TinyCoro.Library.Settling
import TinyCoro.Comp.MutexSettles
import TinyCoro.Comp.EventSettles
import TinyCoro.Comp.WaitGroupSettles
import TinyCoro.Scheduler.ContextRuns
import TinyCoro.Context.Received
import TinyCoro.Scheduler.IoCompletes
import TinyCoro.Context.Burden
import TinyCoro.Context.Rest
import TinyCoro.Scheduler.Progress
import TinyCoro.Scheduler.ShutsDown
import TinyCoro.Scheduler.Balance
import TinyCoro.Io.Sockets
import TinyCoro.Program.Tended
import TinyCoro.Program.Settles
import TinyCoro.Program.ComesToRest
