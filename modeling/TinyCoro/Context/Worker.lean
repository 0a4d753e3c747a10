import Mathlib.Logic.Function.Basic
import Mathlib.Algebra.Group.Nat.Defs
import Mathlib.Algebra.Group.Int.Defs
import TinyCoro.Library.Machine

/-! The worker thread of one context: the loop of `context::run` over its engine,
with the task queue, the eventfd and the rings of io_uring. Other threads push
tasks and request the stop, and the kernel completes operations, between any two
of the worker's steps. -/
namespace TinyCoro.Context
open Library

/-- The address of an `io_info`, which the awaiter in a coroutine frame holds. -/
abbrev InfoPtr := Nat

inductive IoType
  | nop
  | tcpAccept
  | tcpConnect
  | tcpRead
  | tcpWrite
  | tcpClose
  | stdin
  | timer
  deriving DecidableEq

def etime : Int := 62

/-- The result that the callback of each awaiter stores, from `data` of its
`io_info` and `res` of the completion. -/
def callback : IoType → (data res : Int) → Int
  | .tcpConnect, data, res => if res ≠ 0 then res else data
  | .timer, _, res => if res = -etime then 0 else res
  | _, _, res => res

structure IoInfo (Handle : Type) where
  handle : Handle
  result : Int
  type : IoType
  data : Int

/-- A submission entry; `op` numbers the operations in the order of their
creation and is read by no step. -/
structure Entry where
  op : Nat
  userData : InfoPtr
  deriving DecidableEq

structure Completion where
  entry : Entry
  res : Int
  deriving DecidableEq

/-- Where the worker is in `context::run`. `left` counts the tasks of the
`was_size` snapshot still to run, and `cnt` the completions of the batch. -/
inductive Pc (Coro : Type)
  | processWork
  | exec (left : Nat)
  | running (left : Nat) (handle : Coro)
  | wakeSelf (left : Nat) (handle : Coro)
  | stopRequested
  | emptyWaitWork
  | ready
  | stopNotRequested
  | idleWaitWork
  | notReady
  | stopCb
  | doIoSubmit
  | ioSubmitted
  | waitEventfd
  | peekBatchCqe
  | handleCqe (i cnt : Nat)
  | wakeUp (i cnt : Nat)
  | cqAdvance (cnt : Nat)
  | subtract (cnt : Nat)
  | returned
  -- `submit_task` asserts that the handle is not null
  | aborted (i cnt : Nat)

def isRunning {Coro : Type} : Pc Coro → Bool
  | .running _ _ => true
  | _ => false

/-- What is known of an operation from its creation. -/
structure Operation where
  type : IoType
  data : Int

structure Callback (Coro : Type) where
  op : Nat
  handle : Coro
  result : Int

/-- `waking` and `stopping` count the other threads between the push and the
`wake_up` of `submit_task`, and between the two steps of `notify_stop`. `awaiting`
is the awaiter that a suspended coroutine has co_awaited. The last six fields are
histories: `made` is the operation of the awaiter at an address, and `coroutine` the
coroutine that has co_awaited an operation. -/
structure State (Coro : Type) where
  taskQueue : List Coro
  efd : Nat
  waking : Nat
  stop : Bool
  stopping : Nat
  numWaitTask : Int
  numIoWaitSubmit : Int
  numIoRunning : Int
  sq : List Entry
  inKernel : List Entry
  cq : List Completion
  info : InfoPtr → IoInfo (Option Coro)
  live : InfoPtr → Bool
  awaiting : Coro → Option Entry
  pc : Pc Coro
  operations : List Operation
  made : InfoPtr → Nat
  coroutine : Nat → Option Coro
  posted : Nat → Option Int
  callbacks : List (Callback Coro)
  received : List (Nat × Int)

inductive Action (Coro : Type)
  | step
  | accept (count : Nat)
  | submitSelf (t : Coro)
  | io (type : IoType) (data : Int) (ptr : InfoPtr)
  | coAwait (ptr : InfoPtr)
  | suspend
  | registerWait (registerCnt : Int)
  | push (t : Coro)
  | wake
  | requestStop
  | stopWake
  | post (before after : List Entry) (entry : Entry) (res : Int)

def taskFlag : Nat := 2^44

def cqeMask : Nat := 0x0000000000FFFFFF

def cqeBits (value : Nat) : Nat := value &&& cqeMask

def wakeByCqe (value : Nat) : Bool := decide (0 < cqeBits value)

def kQueCap : Nat := 16384

variable {Coro : Type} [DecidableEq Coro]

def State.inFlight (s : State Coro) : Nat := s.sq.length + s.inKernel.length + s.cq.length

def State.emptyIo (s : State Coro) : Bool := decide (s.numIoWaitSubmit = 0 ∧ s.numIoRunning = 0)

/-- `write_eventfd` blocks while the sum would pass the largest counter value. -/
def State.canWrite (s : State Coro) (num : Nat) : Prop := s.efd + num ≤ 2^64 - 2

instance (s : State Coro) (num : Nat) : Decidable (s.canWrite num) := inferInstanceAs (Decidable (_ ≤ _))

def State.writeEventfd (s : State Coro) (num : Nat) : State Coro := { s with efd := s.efd + num }

/-- The popped coroutine goes on: an io awaiter's `await_resume` returns the
stored result, and with the full expression the awaiter ends. -/
def State.resume (s : State Coro) (handle : Coro) : State Coro :=
  match s.awaiting handle with
  | none => s
  | some entry =>
    { s with
      awaiting := Function.update s.awaiting handle none
      live := Function.update s.live entry.userData false
      received := s.received ++ [(entry.op,(s.info entry.userData).result)] }

def State.result (s : State Coro) (cqe : Completion) : Int :=
  callback (s.info cqe.entry.userData).type (s.info cqe.entry.userData).data cqe.res

def State.storeResult (s : State Coro) (cqe : Completion) : State Coro :=
  { s with
    info := Function.update s.info cqe.entry.userData { s.info cqe.entry.userData with result := s.result cqe } }

/-- `handle_cqe_entry`: the callback stores the result and pushes the handle to
the context of this thread. -/
def State.handleCqe (s : State Coro) (cqe : Completion) (handle : Coro) : State Coro :=
  { s.storeResult cqe with
    taskQueue := s.taskQueue ++ [handle]
    callbacks := s.callbacks ++ [⟨cqe.entry.op,handle,s.result cqe⟩] }

def advance (s : State Coro) : Option (State Coro) :=
  match s.pc with
  | .processWork => some { s with pc := .exec s.taskQueue.length }
  | .exec 0 => some { s with pc := .stopRequested }
  | .exec (left+1) =>
    match s.taskQueue with
    | [] => none
    | handle::rest => some { s.resume handle with taskQueue := rest, pc := .running left handle }
  | .running _ _ => none
  | .wakeSelf left handle =>
    if s.canWrite taskFlag then some { s.writeEventfd taskFlag with pc := .running left handle } else none
  | .stopRequested => some { s with pc := if s.stop then .emptyWaitWork else .stopNotRequested }
  | .emptyWaitWork => some { s with pc := if s.numWaitTask = 0 ∧ s.emptyIo then .ready else .stopNotRequested }
  | .ready => some { s with pc := if s.taskQueue = [] then .returned else .processWork }
  | .stopNotRequested => some { s with pc := if s.stop then .doIoSubmit else .idleWaitWork }
  | .idleWaitWork => some { s with pc := if s.numWaitTask = 0 ∧ s.emptyIo then .notReady else .doIoSubmit }
  | .notReady => some { s with pc := if s.taskQueue = [] then .stopCb else .doIoSubmit }
  | .stopCb => some { s with pc := .doIoSubmit }
  | .doIoSubmit => if 0 < s.numIoWaitSubmit then none else some { s with pc := .waitEventfd }
  | .ioSubmitted =>
    some { s with
      numIoRunning := s.numIoRunning + s.numIoWaitSubmit
      numIoWaitSubmit := 0
      pc := .waitEventfd }
  | .waitEventfd =>
    if s.efd = 0 then none
    else some { s with efd := 0, pc := if wakeByCqe s.efd then .peekBatchCqe else .processWork }
  | .peekBatchCqe =>
    let num := min s.cq.length s.numIoRunning.toNat
    some { s with pc := if num ≠ 0 then .handleCqe 0 num else .processWork }
  | .handleCqe i cnt =>
    if i < cnt then
      match s.cq[i]? with
      | none => none
      | some cqe =>
        match (s.info cqe.entry.userData).handle with
        | none => some { s.storeResult cqe with pc := .aborted i cnt }
        | some handle => some { s.handleCqe cqe handle with pc := .wakeUp (i+1) cnt }
    else some { s with pc := .cqAdvance cnt }
  | .wakeUp i cnt =>
    if s.canWrite taskFlag then some { s.writeEventfd taskFlag with pc := .handleCqe i cnt } else none
  | .cqAdvance cnt => some { s with cq := s.cq.drop cnt, pc := .subtract cnt }
  | .subtract cnt => some { s with numIoRunning := s.numIoRunning - cnt, pc := .processWork }
  | .returned | .aborted _ _ => none

def step (s : State Coro) : Action Coro → Option (State Coro)
  | .step => advance s
  | .accept count =>
    -- `io_uring_submit` hands the front of the submission ring to the kernel
    match s.pc with
    | .doIoSubmit =>
      if 0 < s.numIoWaitSubmit ∧ count ≤ s.sq.length then
        some { s with inKernel := s.inKernel ++ s.sq.take count, sq := s.sq.drop count, pc := .ioSubmitted }
      else none
    | _ => none
  | .submitSelf t =>
    match s.pc with
    | .running left handle => some { s with taskQueue := s.taskQueue ++ [t], pc := .wakeSelf left handle }
    | _ => none
  | .io type data ptr =>
    -- the constructor of an awaiter; the ring has a free entry while at most
    -- `kQueCap` operations are in flight
    match s.pc with
    | .running _ _ =>
      if s.live ptr = false ∧ s.inFlight < kQueCap then
        some { s with
          info := Function.update s.info ptr ⟨none,0,type,data⟩
          live := Function.update s.live ptr true
          sq := s.sq ++ [⟨s.operations.length,ptr⟩]
          numIoWaitSubmit := s.numIoWaitSubmit + 1
          operations := s.operations ++ [⟨type,data⟩]
          made := Function.update s.made ptr s.operations.length }
      else none
    | _ => none
  | .coAwait ptr =>
    -- `await_suspend` of an awaiter that nobody has awaited yet
    match s.pc with
    | .running left handle =>
      if s.live ptr = true ∧ (s.info ptr).handle = none then
        some { s with
          info := Function.update s.info ptr { s.info ptr with handle := some handle }
          awaiting := Function.update s.awaiting handle (some ⟨s.made ptr,ptr⟩)
          pc := .exec left
          coroutine := Function.update s.coroutine (s.made ptr) (some handle) }
      else none
    | _ => none
  | .suspend =>
    match s.pc with
    | .running left _ => some { s with pc := .exec left }
    | _ => none
  | .registerWait registerCnt => some { s with numWaitTask := s.numWaitTask + registerCnt }
  | .push t => some { s with taskQueue := s.taskQueue ++ [t], waking := s.waking + 1 }
  | .wake =>
    if 0 < s.waking ∧ s.canWrite taskFlag then some { s.writeEventfd taskFlag with waking := s.waking - 1 } else none
  | .requestStop => some { s with stop := true, stopping := s.stopping + 1 }
  | .stopWake =>
    if 0 < s.stopping ∧ s.canWrite 1 then some { s.writeEventfd 1 with stopping := s.stopping - 1 } else none
  | .post before after entry res =>
    -- any accepted operation may complete next
    if s.inKernel = before ++ entry::after then
      some { s.writeEventfd 1 with
        inKernel := before ++ after
        cq := s.cq ++ [⟨entry,res⟩]
        posted := Function.update s.posted entry.op (some res) }
    else none

/-- After `init`, with any tasks already submitted. -/
def Fresh (s : State Coro) : Prop :=
  s.efd = 0 ∧ s.waking = 0 ∧ s.stop = false ∧ s.stopping = 0 ∧ s.numWaitTask = 0 ∧
    s.numIoWaitSubmit = 0 ∧ s.numIoRunning = 0 ∧ s.sq = [] ∧ s.inKernel = [] ∧ s.cq = [] ∧
    (∀ p, s.live p = false) ∧ (∀ t, s.awaiting t = none) ∧ s.pc = .processWork ∧
    s.operations = [] ∧ (∀ k, s.coroutine k = none) ∧ (∀ k, s.posted k = none) ∧ s.callbacks = [] ∧ s.received = []

def machine (Coro : Type) [DecidableEq Coro] : Machine (State Coro) (Action Coro) := ⟨Fresh,step⟩

/-- A new context with these tasks, each of which has been written to its eventfd. -/
def newContext (tasks : List Coro) : State Coro where
  taskQueue := tasks
  efd := taskFlag * tasks.length
  waking := 0
  stop := false
  stopping := 0
  numWaitTask := 0
  numIoWaitSubmit := 0
  numIoRunning := 0
  sq := []
  inKernel := []
  cq := []
  info := fun _ => ⟨none,0,.nop,0⟩
  live := fun _ => false
  awaiting := fun _ => none
  pc := .processWork
  operations := []
  made := fun _ => 0
  coroutine := fun _ => none
  posted := fun _ => none
  callbacks := []
  received := []

theorem cqeBits_eq (value : Nat) : cqeBits value = value % 2^24 := by
  have mask : cqeMask = 2^24 - 1 := by decide
  rw [cqeBits,mask,Nat.and_two_pow_sub_one_eq_mod]

omit [DecidableEq Coro] in
theorem newContext_fresh (tasks : List Coro) : Fresh { newContext tasks with efd := 0 } := by simp [Fresh,newContext]

omit [DecidableEq Coro] in
theorem Fresh.stop {s : State Coro} (fresh : Fresh s) : s.stop = false := fresh.2.2.1

omit [DecidableEq Coro] in
theorem Fresh.numWaitTask {s : State Coro} (fresh : Fresh s) : s.numWaitTask = 0 := fresh.2.2.2.2.1

omit [DecidableEq Coro] in
theorem Fresh.cq {s : State Coro} (fresh : Fresh s) : s.cq = [] := fresh.2.2.2.2.2.2.2.2.2.1

omit [DecidableEq Coro] in
theorem Fresh.pc {s : State Coro} (fresh : Fresh s) : s.pc = .processWork := fresh.2.2.2.2.2.2.2.2.2.2.2.2.1

end TinyCoro.Context
