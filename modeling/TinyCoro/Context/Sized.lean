import TinyCoro.Context.Worker
import TinyCoro.Engine.Rings
import Mathlib.Data.Nat.Log

/-! The worker with the sizes of its parts: a push into a full task queue blocks,
`io_uring_submit` takes every entry, and an awaiter asks the submission ring for its
entry. Coroutines are resumed by the engine or by the symmetric transfer between
nested tasks. -/
namespace TinyCoro.Context.Sized
open Library

/-- The entries of the submission ring: the kernel rounds up to a power of two. -/
def sqEntries : Nat := 2^Nat.clog 2 Engine.kEntryLength

theorem kQueCap_le_sqEntries : kQueCap ≤ sqEntries := by
  have large : 13 < Nat.clog 2 Engine.kEntryLength := by
    rw [Nat.lt_clog_iff_pow_lt (by decide)]
    decide
  calc kQueCap = 2^14 := rfl
    _ ≤ sqEntries := Nat.pow_le_pow_right (by decide) large

/-- `continuation` is in the promises; `aborted` is a failed assertion. The last two
fields count the writes since the last read of the eventfd, those of `submit_task` and
those of completions and of `notify_stop`. -/
structure State (Coro : Type) where
  worker : Context.State Coro
  continuation : Coro → Option Coro
  aborted : Bool
  taskWrites : Nat
  cqeWrites : Nat

/-- `call` is the co_await of a nested task, `finish` the final suspend. -/
inductive Action (Coro : Type)
  | worker (a : Context.Action Coro)
  | io (type : IoType) (data : Int) (ptr : InfoPtr)
  | call (child : Coro)
  | finish

variable {Coro : Type}

/-- `get_free_urs`: an entry of the ring, or the null pointer. -/
def getFreeUrs (w : Context.State Coro) : Option Nat := if w.sq.length < sqEntries then some w.sq.length else none

def pushes (w : Context.State Coro) : Context.Action Coro → Bool
  | .submitSelf _ | .push _ => true
  | .step =>
    match w.pc with
    | .handleCqe i cnt => decide (i < cnt)
    | _ => false
  | _ => false

def taskWrite (w : Context.State Coro) : Context.Action Coro → Nat
  | .step =>
    match w.pc with
    | .wakeSelf _ _ | .wakeUp _ _ => 1
    | _ => 0
  | .wake => 1
  | _ => 0

def cqeWrite : Context.Action Coro → Nat
  | .stopWake | .post _ _ _ _ => 1
  | _ => 0

def reads (w : Context.State Coro) : Context.Action Coro → Bool
  | .step =>
    match w.pc with
    | .waitEventfd => true
    | _ => false
  | _ => false

/-- A step that the sizes allow. The io awaiters are constructed and awaited below. -/
def fits (w : Context.State Coro) (a : Context.Action Coro) : Bool :=
  (!pushes w a || decide (w.taskQueue.length < kQueCap)) &&
    match a with
    | .accept count => count == w.sq.length
    | .io _ _ _ | .coAwait _ => false
    | _ => true

variable [DecidableEq Coro]

/-- `base_io_awaiter` with its entry, `add_io_submit`, and the suspension at it. -/
def construct (w : Context.State Coro) (left : Nat) (handle : Coro) (type : IoType) (data : Int) (ptr : InfoPtr) :
    Context.State Coro :=
  { w with
    info := Function.update w.info ptr ⟨some handle,0,type,data⟩
    live := Function.update w.live ptr true
    awaiting := Function.update w.awaiting handle (some ⟨w.operations.length,ptr⟩)
    sq := w.sq ++ [⟨w.operations.length,ptr⟩]
    numIoWaitSubmit := w.numIoWaitSubmit + 1
    operations := w.operations ++ [⟨type,data⟩]
    made := Function.update w.made ptr w.operations.length
    coroutine := Function.update w.coroutine w.operations.length (some handle)
    pc := .exec left }

def step (s : State Coro) : Action Coro → Option (State Coro)
  | .worker a =>
    if s.aborted || !fits s.worker a then none
    else (Context.step s.worker a).map fun w =>
      { s with
        worker := w
        taskWrites := if reads s.worker a then 0 else s.taskWrites + taskWrite s.worker a
        cqeWrites := if reads s.worker a then 0 else s.cqeWrites + cqeWrite a }
  | .io type data ptr =>
    match s.worker.pc with
    | .running left handle =>
      if s.aborted || s.worker.live ptr then none
      else
        match getFreeUrs s.worker with
        | none => some { s with aborted := true }
        | some _ => some { s with worker := construct s.worker left handle type data ptr }
    | _ => none
  | .call child =>
    match s.worker.pc with
    | .running left handle =>
      if s.aborted then none
      else
        some { s with
          worker := { s.worker with pc := .running left child }
          continuation := Function.update s.continuation child (some handle) }
    | _ => none
  | .finish =>
    match s.worker.pc with
    | .running left handle =>
      if s.aborted then none
      else
        match s.continuation handle with
        | none => some { s with worker := { s.worker with pc := .exec left } }
        | some parent => some { s with worker := { s.worker with pc := .running left parent } }
    | _ => none

/-- Before the loop; each task submitted so far has been written to the eventfd. -/
structure Fresh (s : State Coro) : Prop where
  worker : Context.Fresh { s.worker with efd := 0 }
  fits : s.worker.taskQueue.length ≤ kQueCap
  efd : s.worker.efd = taskFlag * s.worker.taskQueue.length
  taskWrites : s.taskWrites = s.worker.taskQueue.length
  cqeWrites : s.cqeWrites = 0
  aborted : s.aborted = false

def machine (Coro : Type) [DecidableEq Coro] : Machine (State Coro) (Action Coro) := ⟨Fresh,step⟩

end TinyCoro.Context.Sized
