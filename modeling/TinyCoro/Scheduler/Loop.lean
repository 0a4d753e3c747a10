import TinyCoro.Context.Counters

/-! The scheduler with its `n` contexts: `start_impl`, the workers, their stop
callbacks and `submit_task_impl`, one atomic operation, queue access or eventfd
access per step. -/
namespace TinyCoro.Scheduler
open Library

/-- The coroutine that a worker runs, or a thread outside. -/
abbrev Submitter (n : Nat) (Ext : Type) := Fin n ⊕ Ext

/-- Where a submitter is in `submit_task_impl`, or in a `submit_task` of a context. -/
inductive Submission (n : Nat) (Coro : Type)
  | idle
  | load (handle : Coro)
  | dispatch (handle : Coro)
  | fetchOr (ctxId : Fin n) (handle : Coro)
  | fetchAdd (ctxId : Fin n) (old : Nat) (handle : Coro)
  | push (ctxId : Fin n) (handle : Coro)
  | wakeUp (ctxId : Fin n)

/-- Where a worker is in its stop callback, while its context is at `stopCb`. -/
inductive StopCb (n : Nat)
  | fetchAnd
  | fetchSub (cnt : Nat)
  | requestStop (i : Fin n)
  | wakeUp (i : Fin n)
  deriving DecidableEq

inductive Start (n : Nat)
  | spawn (i : Fin n)
  | assign (i : Fin n)
  | done
  deriving DecidableEq

/-- `asserts` tells whether `assert` is compiled in. `crashed` is the end of the
process by a failed assertion or a null `m_job`. `stops` counts the calls of
`stop_impl` and is read by no step. -/
structure State (n : Nat) (Coro Ext : Type) where
  asserts : Bool
  stopToken : Int
  ctxStopFlag : Fin n → Nat
  cur : Nat
  ctxs : Fin n → Context.State Coro
  stopCb : Fin n → StopCb n
  submits : Submitter n Ext → Submission n Coro
  start : Start n
  spawned : Fin n → Bool
  job : Fin n → Bool
  closed : Fin n → Bool
  crashed : Bool
  stops : Nat

/-- `resume` is a component that sends a registered waiter back to its context,
`wait` a coroutine that registers or unregisters its own waits. -/
inductive Action (n : Nat) (Coro Ext : Type)
  | start
  | work (i : Fin n) (a : Context.Action Coro)
  | wait (i : Fin n) (registerCnt : Int)
  | submit (u : Submitter n Ext) (handle : Coro)
  | resume (u : Submitter n Ext) (i : Fin n) (handle : Coro)
  | proceed (u : Submitter n Ext)
  | callback (i : Fin n)
  | deinit (i : Fin n)

def Submission.isIdle {n : Nat} {Coro : Type} : Submission n Coro → Bool
  | .idle => true
  | _ => false

/-- The context whose flag this submit has found 0, before its `fetch_add`. -/
def Submission.raised {n : Nat} {Coro : Type} : Submission n Coro → Option (Fin n)
  | .fetchAdd ctxId 0 _ => some ctxId
  | _ => none

def atStopCb {Coro : Type} : Context.Pc Coro → Bool
  | .stopCb => true
  | _ => false

def next {n : Nat} (i : Fin n) : Option (Fin n) := if more : i + 1 < n then some ⟨i + 1,more⟩ else none

variable {n : Nat} {Coro Ext : Type} [DecidableEq Coro] [DecidableEq Ext]

def State.context (s : State n Coro Ext) (i : Fin n) (c : Context.State Coro) : State n Coro Ext :=
  { s with ctxs := Function.update s.ctxs i c }

def State.submitting (s : State n Coro Ext) (u : Submitter n Ext) (p : Submission n Coro) : State n Coro Ext :=
  { s with submits := Function.update s.submits u p }

/-- The worker of `i` takes its own steps, unless its coroutine is inside a submit;
its stop callback is not one of them. -/
def State.mayWork (s : State n Coro Ext) (i : Fin n) : Context.Action Coro → Bool
  | .step => (s.submits (.inl i)).isIdle && !atStopCb (s.ctxs i).pc
  | .accept _ | .submitSelf _ | .io _ _ _ | .coAwait _ | .suspend => (s.submits (.inl i)).isIdle
  | .post _ _ _ _ => true
  | _ => false

def State.mayCall (s : State n Coro Ext) : Submitter n Ext → Bool
  | .inl i => (s.submits (.inl i)).isIdle && Context.isRunning (s.ctxs i).pc
  | .inr e => (s.submits (.inr e)).isIdle

/-- The callback of `i` returns, and `run` goes on to `poll_work`. -/
def State.endCallback (s : State n Coro Ext) (i : Fin n) : State n Coro Ext :=
  { s.context i { s.ctxs i with pc := .doIoSubmit } with stopCb := Function.update s.stopCb i .fetchAnd }

def State.notified (s : State n Coro Ext) (i k : Fin n) : State n Coro Ext :=
  match next k with
  | some k' => { s with stopCb := Function.update s.stopCb i (.requestStop k') }
  | none => s.endCallback i

def proceed (s : State n Coro Ext) (u : Submitter n Ext) : Option (State n Coro Ext) :=
  match s.submits u with
  | .idle => none
  | .load handle =>
    if s.asserts ∧ s.stopToken = 0 then some { s with crashed := true } else some (s.submitting u (.dispatch handle))
  | .dispatch handle =>
    if some : 0 < n then
      Option.some { s.submitting u (.fetchOr ⟨s.cur % n,Nat.mod_lt _ some⟩ handle) with cur := (s.cur + 1) % 2^64 }
    else none
  | .fetchOr ctxId handle =>
    some { s.submitting u (.fetchAdd ctxId (s.ctxStopFlag ctxId) handle) with
      ctxStopFlag := Function.update s.ctxStopFlag ctxId (s.ctxStopFlag ctxId ||| 1) }
  | .fetchAdd ctxId old handle =>
    some { s.submitting u (.push ctxId handle) with stopToken := s.stopToken + (1 - old) }
  | .push ctxId handle =>
    some ((s.submitting u (.wakeUp ctxId)).context ctxId
      { s.ctxs ctxId with taskQueue := (s.ctxs ctxId).taskQueue ++ [handle] })
  | .wakeUp ctxId =>
    if s.closed ctxId then
      if s.asserts then some { s with crashed := true } else some (s.submitting u .idle)
    else if (s.ctxs ctxId).canWrite Context.taskFlag then
      some ((s.submitting u .idle).context ctxId ((s.ctxs ctxId).writeEventfd Context.taskFlag))
    else none

def callback (s : State n Coro Ext) (i : Fin n) : Option (State n Coro Ext) :=
  match s.stopCb i with
  | .fetchAnd =>
    some { s with
      ctxStopFlag := Function.update s.ctxStopFlag i 0
      stopCb := Function.update s.stopCb i (.fetchSub (s.ctxStopFlag i)) }
  | .fetchSub cnt =>
    if s.stopToken = cnt then
      some { s with
        stopToken := s.stopToken - cnt
        stopCb := Function.update s.stopCb i (.requestStop ⟨0,i.pos⟩)
        stops := s.stops + 1 }
    else some { s.endCallback i with stopToken := s.stopToken - cnt }
  | .requestStop k =>
    if s.job k then
      some { s.context k { s.ctxs k with stop := true } with stopCb := Function.update s.stopCb i (.wakeUp k) }
    else some { s with crashed := true }
  | .wakeUp k =>
    if s.closed k then
      if s.asserts then some { s with crashed := true } else some (s.notified i k)
    else if (s.ctxs k).canWrite 1 then some ((s.context k ((s.ctxs k).writeEventfd 1)).notified i k)
    else none

def act (s : State n Coro Ext) : Action n Coro Ext → Option (State n Coro Ext)
  | .start =>
    match s.start with
    | .spawn i => some { s with spawned := Function.update s.spawned i true, start := .assign i }
    | .assign i =>
      some { s with
        job := Function.update s.job i true
        start := match next i with | some k => .spawn k | none => .done }
    | .done => none
  | .work i a =>
    if s.spawned i ∧ s.closed i = false ∧ s.mayWork i a then (Context.step (s.ctxs i) a).map (s.context i) else none
  | .wait i registerCnt =>
    -- a coroutine unregisters only what it has registered
    if s.mayCall (.inl i) ∧ 0 ≤ (s.ctxs i).numWaitTask + registerCnt then
      some (s.context i { s.ctxs i with numWaitTask := (s.ctxs i).numWaitTask + registerCnt })
    else none
  | .submit u handle => if s.mayCall u then some (s.submitting u (.load handle)) else none
  | .resume u i handle =>
    if s.mayCall u ∧ 0 < (s.ctxs i).numWaitTask then
      some ((s.submitting u (.wakeUp i)).context i { s.ctxs i with taskQueue := (s.ctxs i).taskQueue ++ [handle] })
    else none
  | .proceed u => proceed s u
  | .callback i => if atStopCb (s.ctxs i).pc then callback s i else none
  | .deinit i =>
    match (s.ctxs i).pc with
    | .returned =>
      if s.closed i then none
      else some { s.context i { s.ctxs i with taskQueue := [] } with closed := Function.update s.closed i true }
    | _ => none

def step (s : State n Coro Ext) (a : Action n Coro Ext) : Option (State n Coro Ext) :=
  if s.crashed then none else act s a

/-- After `init_impl` and any submissions before the loop. -/
def Fresh (s : State n Coro Ext) : Prop :=
  s.stopToken = n ∧ (∀ i, s.ctxStopFlag i = 1) ∧ (∀ i, Context.Fresh { s.ctxs i with taskQueue := [], efd := 0 }) ∧
    (∀ i, s.stopCb i = .fetchAnd) ∧ (∀ u, s.submits u = .idle) ∧
    s.start = (if some : 0 < n then .spawn ⟨0,some⟩ else .done) ∧ (∀ i, s.spawned i = false) ∧ (∀ i, s.job i = false) ∧
    (∀ i, s.closed i = false) ∧ s.crashed = false ∧ s.stops = 0

def machine (n : Nat) (Coro Ext : Type) [DecidableEq Coro] [DecidableEq Ext] :
    Machine (State n Coro Ext) (Action n Coro Ext) := ⟨Fresh,step⟩

/-- Before the loop: each context with its tasks, and the counter of the dispatcher. -/
def initial (n : Nat) {Coro : Type} (Ext : Type) (cur : Nat) (tasks : Fin n → List Coro) : State n Coro Ext where
  asserts := true
  stopToken := n
  ctxStopFlag := fun _ => 1
  cur := cur
  ctxs := fun i => Context.newContext (tasks i)
  stopCb := fun _ => .fetchAnd
  submits := fun _ => .idle
  start := if some : 0 < n then .spawn ⟨0,some⟩ else .done
  spawned := fun _ => false
  job := fun _ => false
  closed := fun _ => false
  crashed := false
  stops := 0

omit [DecidableEq Coro] [DecidableEq Ext] in
theorem initial_fresh (cur : Nat) (tasks : Fin n → List Coro) : Fresh (initial n Ext cur tasks) := by
  exact ⟨rfl,fun _ => rfl,fun _ => Context.newContext_fresh [],fun _ => rfl,fun _ => rfl,rfl,fun _ => rfl,fun _ => rfl,fun _ => rfl,rfl,rfl⟩

end TinyCoro.Scheduler
