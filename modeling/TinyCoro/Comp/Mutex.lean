import TinyCoro.Library.Machine
import TinyCoro.Comp.Contexts

/-! The coroutine mutex with the condition variables that are used with it, one
access of shared memory per step. A critical section of the spin lock of a
condition variable is one step between its two accesses of the lock. -/
namespace TinyCoro.Mutex

inductive AwaiterPtr
  | nolocked
  | locked (head : Option Addr)
  deriving DecidableEq

def lockedNoWaiting : AwaiterPtr := .locked none

/-- The `m_next` that `register_lock` writes for a loaded state. -/
def AwaiterPtr.next : AwaiterPtr → Option Addr
  | .nolocked => none
  | .locked head => head

/-- The class of an awaiter: `mutex_awaiter` or `cv_awaiter`. -/
inductive Kind (Cv Shared : Type)
  | lock
  | wait (cv : Cv) (cond : Option (Shared → Bool))

/-- The calls under way when `unlock` or `wake_up` runs, innermost first. -/
inductive Frame (Cv : Type)
  | user
  | awaitSuspend (self : Addr)
  | notifyAll (cv : Cv) (nxt : Option Addr)
  | resume (self : Addr) (caller : Frame Cv)

/-- Where a thread is while it runs a coroutine. `waker` is the caller of
`wake_up` where that called `register_lock`. -/
inductive Pc (Cv : Type)
  | idle
  | registerWait (self : Addr)
  | loadState (self : Addr) (waker : Option (Frame Cv))
  | compareExchange (self : Addr) (state : AwaiterPtr) (waker : Option (Frame Cv))
  | suspended (self : Addr)
  | awaitResume (self : Addr)
  | unlock (caller : Frame Cv)
  | unlockHead (caller : Frame Cv)
  | unlockCompareExchange (caller : Frame Cv)
  | unlockExchange (caller : Frame Cv)
  | unlockReverse (awaiter : Addr) (toResume : Option Addr) (caller : Frame Cv)
  | unlockPop (toResume : Addr) (caller : Frame Cv)
  | resume (self : Addr) (caller : Frame Cv)
  | submitTask (self : Addr) (caller : Frame Cv)
  | cvAwaitSuspend (self : Addr)
  | cvRegisterWait (self : Addr) (cv : Cv) (caller : Frame Cv)
  | cvLock (self : Addr) (cv : Cv) (caller : Frame Cv)
  | cvLink (self : Addr) (cv : Cv) (caller : Frame Cv)
  | cvUnlock (self : Addr) (cv : Cv) (caller : Frame Cv)
  | oneLock (cv : Cv)
  | oneTake (cv : Cv)
  | oneUnlock (cv : Cv) (cur : Option Addr)
  | allLock (cv : Cv)
  | allTake (cv : Cv)
  | allUnlock (cv : Cv) (curHead : Option Addr)
  | allLoop (cv : Cv) (curHead : Option Addr)
  | aborted

/-- The fields of the awaiters are kept by address, those of the condition
variables by name. `owns` is what a coroutine knows: it has taken the mutex and
not given it up since. The last six fields are histories. -/
structure State (Coro Ctx Cv Shared : Type) where
  state : AwaiterPtr
  resumeListHead : Option Addr
  live : Addr → Bool
  ctx : Addr → Ctx
  next : Addr → Option Addr
  awaitCoro : Addr → Coro
  kind : Addr → Kind Cv Shared
  suspendState : Addr → Bool
  lock : Cv → Bool
  head : Cv → Option Addr
  tail : Cv → Option Addr
  shared : Shared
  pc : Coro → Pc Cv
  owns : Coro → Bool
  contexts : Contexts Ctx Coro
  submissions : Addr → Nat
  registrations : Cv → List Addr
  taken : Cv → Nat
  version : Nat
  began : Coro → Nat
  notified : Cv → Nat

inductive Action (Coro Ctx Cv Shared : Type)
  | lock (t : Coro) (self : Addr) (x : Ctx)
  | tryLock (t : Coro)
  | unlock (t : Coro)
  | wait (t : Coro) (self : Addr) (x : Ctx) (cv : Cv) (cond : Option (Shared → Bool))
  | notifyOne (t : Coro) (cv : Cv)
  | notifyAll (t : Coro) (cv : Cv)
  | modify (t : Coro) (shared : Shared)
  | step (t : Coro)
  | spurious (t : Coro)
  | exec (x : Ctx)

/-- Where a caller goes on after the `unlock`, `wake_up` or `resume` it called. -/
def Frame.finish {Cv : Type} : Frame Cv → Pc Cv
  | .user => .idle
  | .awaitSuspend self => .suspended self
  | .notifyAll cv nxt => .allLoop cv nxt
  | .resume _ caller => caller.finish

variable {Coro Ctx Cv Shared : Type} [DecidableEq Coro] [DecidableEq Ctx] [DecidableEq Cv]

def State.goto (s : State Coro Ctx Cv Shared) (t : Coro) (p : Pc Cv) : State Coro Ctx Cv Shared :=
  { s with pc := Function.update s.pc t p }

def State.construct (s : State Coro Ctx Cv Shared) (t : Coro) (self : Addr) (x : Ctx) (kind : Kind Cv Shared) :
    State Coro Ctx Cv Shared :=
  { s with
    live := Function.update s.live self true
    ctx := Function.update s.ctx self x
    next := Function.update s.next self none
    awaitCoro := Function.update s.awaitCoro self t
    kind := Function.update s.kind self kind
    suspendState := Function.update s.suspendState self false
    submissions := Function.update s.submissions self 0 }

/-- How often `await_resume` unregisters: a `cv_awaiter` only if it has suspended. -/
def State.registered (s : State Coro Ctx Cv Shared) (self : Addr) : Int :=
  match s.kind self with
  | .lock => 1
  | .wait _ _ => if s.suspendState self then 1 else 0

def State.ready (s : State Coro Ctx Cv Shared) (self : Addr) : Bool :=
  match s.kind self with
  | .wait _ (some cond) => cond s.shared
  | _ => true

def advance (s : State Coro Ctx Cv Shared) (t : Coro) : Option (State Coro Ctx Cv Shared) :=
  match s.pc t with
  | .idle | .suspended _ | .aborted => none
  | .registerWait self =>
    some { s.goto t (.loadState self none) with contexts := s.contexts.registerWait (s.ctx self) 1 }
  | .loadState self waker =>
    some { s.goto t (.compareExchange self s.state waker) with next := Function.update s.next self s.state.next }
  | .compareExchange self state waker =>
    if s.state = state then
      match state with
      | .nolocked =>
        some { s.goto t (match waker with | none => .awaitResume self | some caller => .resume self caller) with
          state := lockedNoWaiting }
      | .locked _ =>
        some { s.goto t (match waker with | none => .suspended self | some caller => caller.finish) with
          state := .locked (some self) }
    else some (s.goto t (.loadState self waker))
  | .awaitResume self =>
    -- after `await_resume` the full expression ends and the awaiter is gone
    some { s.goto t .idle with
      contexts := s.contexts.unregisterWait (s.ctx self) (s.registered self)
      live := Function.update s.live self false
      owns := Function.update s.owns t true }
  | .unlock caller => some (s.goto t (if s.state = .nolocked then .aborted else .unlockHead caller))
  | .unlockHead caller =>
    match s.resumeListHead with
    | none => some (s.goto t (.unlockCompareExchange caller))
    | some toResume => some { s.goto t (.resume toResume caller) with resumeListHead := s.next toResume }
  | .unlockCompareExchange caller =>
    if s.state = lockedNoWaiting then some { s.goto t caller.finish with state := .nolocked }
    else some (s.goto t (.unlockExchange caller))
  | .unlockExchange caller =>
    match s.state with
    | .locked (some awaiter) =>
      some { s.goto t (.unlockReverse awaiter none caller) with state := lockedNoWaiting }
    | _ => some { s.goto t .aborted with state := lockedNoWaiting }
  | .unlockReverse awaiter toResume caller =>
    some { s.goto t (match s.next awaiter with
        | none => .unlockPop awaiter caller
        | some temp => .unlockReverse temp (some awaiter) caller) with
      next := Function.update s.next awaiter toResume }
  | .unlockPop toResume caller => some { s.goto t (.resume toResume caller) with resumeListHead := s.next toResume }
  | .resume self caller =>
    -- the virtual `resume`
    match s.kind self with
    | .lock => some (s.goto t (.submitTask self caller))
    | .wait cv _ =>
      some (s.goto t (if s.ready self then .submitTask self caller else .cvRegisterWait self cv (.resume self caller)))
  | .submitTask self caller =>
    some { s.goto t caller.finish with
      contexts := s.contexts.submitTask (s.ctx self) (s.awaitCoro self)
      submissions := Function.update s.submissions self (s.submissions self + 1) }
  | .cvAwaitSuspend self =>
    match s.kind self with
    | .lock => none
    | .wait cv cond =>
      some (s.goto t (if cond.isSome && s.ready self then .awaitResume self
        else .cvRegisterWait self cv (.awaitSuspend self)))
  | .cvRegisterWait self cv caller =>
    some { s.goto t (.cvLock self cv caller) with
      contexts := s.contexts.registerWait (s.ctx self) (if s.suspendState self then 0 else 1)
      suspendState := Function.update s.suspendState self true
      next := Function.update s.next self none }
  | .cvLock self cv caller =>
    if s.lock cv then none
    else some { s.goto t (.cvLink self cv caller) with lock := Function.update s.lock cv true }
  | .cvLink self cv caller =>
    match s.tail cv with
    | none =>
      some { s.goto t (.cvUnlock self cv caller) with
        head := Function.update s.head cv (some self)
        tail := Function.update s.tail cv (some self)
        registrations := Function.update s.registrations cv (s.registrations cv ++ [self]) }
    | some tail =>
      some { s.goto t (.cvUnlock self cv caller) with
        next := Function.update s.next tail (some self)
        tail := Function.update s.tail cv (some self)
        registrations := Function.update s.registrations cv (s.registrations cv ++ [self]) }
  | .cvUnlock _ cv caller => some { s.goto t (.unlock caller) with lock := Function.update s.lock cv false }
  | .oneLock cv =>
    if s.lock cv then none else some { s.goto t (.oneTake cv) with lock := Function.update s.lock cv true }
  | .oneTake cv =>
    match s.head cv with
    | none => some (s.goto t (.oneUnlock cv none))
    | some cur =>
      some { s.goto t (.oneUnlock cv (some cur)) with
        head := Function.update s.head cv (s.next cur)
        tail := Function.update s.tail cv (if s.next cur = none then none else s.tail cv)
        taken := Function.update s.taken cv (s.taken cv + 1) }
  | .oneUnlock cv cur =>
    some { s.goto t (match cur with | none => .idle | some self => .loadState self (some .user)) with
      lock := Function.update s.lock cv false }
  | .allLock cv =>
    if s.lock cv then none else some { s.goto t (.allTake cv) with lock := Function.update s.lock cv true }
  | .allTake cv =>
    some { s.goto t (.allUnlock cv (s.head cv)) with
      head := Function.update s.head cv none
      tail := Function.update s.tail cv none
      taken := Function.update s.taken cv (s.registrations cv).length }
  | .allUnlock cv curHead => some { s.goto t (.allLoop cv curHead) with lock := Function.update s.lock cv false }
  | .allLoop cv none =>
    some { s.goto t .idle with notified := Function.update s.notified cv (max (s.notified cv) (s.began t)) }
  | .allLoop cv (some curHead) => some (s.goto t (.loadState curHead (some (.notifyAll cv (s.next curHead)))))

/-- `unlock` and `wait` are called, and the state that the predicates read is
modified, only by a coroutine that owns the mutex. -/
def step (s : State Coro Ctx Cv Shared) : Action Coro Ctx Cv Shared → Option (State Coro Ctx Cv Shared)
  | .lock t self x =>
    match s.pc t with
    | .idle => if s.live self then none else some ((s.construct t self x .lock).goto t (.registerWait self))
    | _ => none
  | .tryLock t =>
    match s.pc t with
    | .idle =>
      if s.state = .nolocked then some { s with state := lockedNoWaiting, owns := Function.update s.owns t true }
      else some s
    | _ => none
  | .unlock t =>
    match s.pc t with
    | .idle => if s.owns t then some { s.goto t (.unlock .user) with owns := Function.update s.owns t false } else none
    | _ => none
  | .wait t self x cv cond =>
    match s.pc t with
    | .idle =>
      if s.owns t ∧ s.live self = false then
        some { (s.construct t self x (.wait cv cond)).goto t (.cvAwaitSuspend self) with
          owns := Function.update s.owns t false }
      else none
    | _ => none
  | .notifyOne t cv =>
    match s.pc t with
    | .idle => some (s.goto t (.oneLock cv))
    | _ => none
  | .notifyAll t cv =>
    match s.pc t with
    | .idle => some { s.goto t (.allLock cv) with began := Function.update s.began t s.version }
    | _ => none
  | .modify t shared =>
    match s.pc t with
    | .idle => if s.owns t then some { s with shared := shared, version := s.version + 1 } else none
    | _ => none
  | .step t => advance s t
  | .spurious t =>
    -- `compare_exchange_weak` may fail although the state is unchanged
    match s.pc t with
    | .compareExchange self _ waker => some (s.goto t (.loadState self waker))
    | _ => none
  | .exec x =>
    match s.contexts.taskQueue x with
    | [] => none
    | handle::rest =>
      match s.pc handle with
      | .suspended self => some { s.goto handle (.awaitResume self) with contexts := s.contexts.pop x rest }
      | _ => none

def Fresh (s : State Coro Ctx Cv Shared) : Prop :=
  s.state = .nolocked ∧ s.resumeListHead = none ∧ (∀ a, s.live a = false) ∧ (∀ k, s.lock k = false) ∧
    (∀ k, s.head k = none) ∧ (∀ k, s.tail k = none) ∧ (∀ t, s.pc t = .idle) ∧ (∀ t, s.owns t = false) ∧
    (∀ x, s.contexts.taskQueue x = []) ∧ (∀ k, s.registrations k = []) ∧ (∀ k, s.taken k = 0) ∧
    s.version = 0 ∧ ∀ k, s.notified k = 0

def machine (Coro Ctx Cv Shared : Type) [DecidableEq Coro] [DecidableEq Ctx] [DecidableEq Cv] :
    Library.Machine (State Coro Ctx Cv Shared) (Action Coro Ctx Cv Shared) := ⟨Fresh,step⟩

/-- A new mutex with one condition variable, for coroutines on one context. -/
def newMutex (t : Coro) : State Coro Unit Unit Bool where
  state := .nolocked
  resumeListHead := none
  live := fun _ => false
  ctx := fun _ => ()
  next := fun _ => none
  awaitCoro := fun _ => t
  kind := fun _ => .lock
  suspendState := fun _ => false
  lock := fun _ => false
  head := fun _ => none
  tail := fun _ => none
  shared := false
  pc := fun _ => .idle
  owns := fun _ => false
  contexts := ⟨fun _ => [],fun _ => 0⟩
  submissions := fun _ => 0
  registrations := fun _ => []
  taken := fun _ => 0
  version := 0
  began := fun _ => 0
  notified := fun _ => 0

omit [DecidableEq Coro] in
theorem newMutex_fresh (t : Coro) : Fresh (newMutex t) := by simp [Fresh,newMutex]

def initial : State Bool Unit Unit Bool := newMutex false

theorem initial_fresh : Fresh initial := newMutex_fresh false

end TinyCoro.Mutex
