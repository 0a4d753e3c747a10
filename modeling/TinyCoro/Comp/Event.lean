import TinyCoro.Library.Machine
import TinyCoro.Comp.Contexts

/-! The event, one atomic access per step. Every coroutine may call `wait` and
`set` any number of times. -/
namespace TinyCoro.Event

/-- The values of `m_state`: `this` is `set`, any other value the head of the list. -/
inductive AwaiterPtr
  | set
  | waiting (head : Option Addr)
  deriving DecidableEq

inductive Pc
  | idle
  | registerWait (self : Addr)
  | isSet (self : Addr)
  | loadState (self : Addr)
  | compareExchange (self : Addr) (oldValue : Option Addr)
  | suspended (self : Addr)
  | awaitResume (self : Addr)
  | exchange
  | drain (waiter : Option Addr)
  | resume (cur : Addr) (next : Option Addr)
  deriving DecidableEq

/-- The fields of the awaiters are kept by address. `storage` is the container of
an `event<T>`, which an `event<void>` leaves unset. `initialSet` is the argument
of the constructor; the last six fields are histories. -/
structure State (V Coro Ctx : Type) where
  state : AwaiterPtr
  storage : Option V
  live : Addr → Bool
  ctx : Addr → Ctx
  next : Addr → Option Addr
  awaitCoro : Addr → Coro
  pc : Coro → Pc
  contexts : Contexts Ctx Coro
  initialSet : Bool
  suspensions : Coro → Nat
  submissions : Coro → Nat
  exchanges : Nat
  setter : Option Coro
  sets : List (Option V)
  returned : List (Coro × Option V)

/-- `set` has a value for an `event<T>` and none for an `event<void>`. -/
inductive Action (V Coro Ctx : Type)
  | wait (t : Coro) (self : Addr) (x : Ctx)
  | set (t : Coro) (value : Option V)
  | step (t : Coro)
  | spurious (t : Coro)
  | exec (x : Ctx)

variable {V Coro Ctx : Type} [DecidableEq Coro] [DecidableEq Ctx]

def State.goto (s : State V Coro Ctx) (t : Coro) (p : Pc) : State V Coro Ctx :=
  { s with pc := Function.update s.pc t p }

def advance (s : State V Coro Ctx) (t : Coro) : Option (State V Coro Ctx) :=
  match s.pc t with
  | .idle => none
  | .registerWait self => some { s.goto t (.isSet self) with contexts := s.contexts.registerWait (s.ctx self) 1 }
  | .isSet self => some (s.goto t (if s.state = .set then .awaitResume self else .loadState self))
  | .loadState self =>
    match s.state with
    | .set => some { s.goto t (.awaitResume self) with next := Function.update s.next self none }
    | .waiting oldValue =>
      some { s.goto t (.compareExchange self oldValue) with next := Function.update s.next self oldValue }
  | .compareExchange self oldValue =>
    if s.state = .waiting oldValue then
      some { s.goto t (.suspended self) with
        state := .waiting (some self)
        suspensions := Function.update s.suspensions t (s.suspensions t + 1) }
    else some (s.goto t (.loadState self))
  | .suspended _ => none
  | .awaitResume self =>
    -- after `await_resume` the full expression ends and the awaiter is gone
    some { s.goto t .idle with
      contexts := s.contexts.unregisterWait (s.ctx self) 1
      live := Function.update s.live self false
      returned := s.returned ++ [(t,s.storage)] }
  | .exchange =>
    match s.state with
    | .set => some { s.goto t .idle with exchanges := s.exchanges + 1 }
    | .waiting waiter =>
      some { s.goto t (.drain waiter) with state := .set, exchanges := s.exchanges + 1, setter := some t }
  | .drain none => some (s.goto t .idle)
  | .drain (some cur) => some (s.goto t (.resume cur (s.next cur)))
  | .resume cur next =>
    some { s.goto t (.drain next) with
      contexts := s.contexts.submitTask (s.ctx cur) (s.awaitCoro cur)
      submissions := Function.update s.submissions (s.awaitCoro cur) (s.submissions (s.awaitCoro cur) + 1) }

def step (s : State V Coro Ctx) : Action V Coro Ctx → Option (State V Coro Ctx)
  | .wait t self x =>
    if s.pc t = .idle ∧ s.live self = false then
      some { s.goto t (.registerWait self) with
        live := Function.update s.live self true
        ctx := Function.update s.ctx self x
        next := Function.update s.next self none
        awaitCoro := Function.update s.awaitCoro self t }
    else none
  | .set t value =>
    -- `return_value` of the container
    if s.pc t = .idle then
      some { s.goto t .exchange with storage := value.or s.storage, sets := s.sets ++ [value] }
    else none
  | .step t => advance s t
  | .spurious t =>
    -- `compare_exchange_weak` may fail although the state is unchanged
    match s.pc t with
    | .compareExchange self _ => some (s.goto t (.loadState self))
    | _ => none
  | .exec x =>
    match s.contexts.taskQueue x with
    | [] => none
    | handle::rest =>
      match s.pc handle with
      | .suspended self => some { s.goto handle (.awaitResume self) with contexts := s.contexts.pop x rest }
      | _ => none

/-- An event after its constructor. -/
def Fresh (s : State V Coro Ctx) : Prop :=
  s.state = (if s.initialSet then .set else .waiting none) ∧ s.storage = none ∧ (∀ a, s.live a = false) ∧
    (∀ t, s.pc t = .idle) ∧ (∀ x, s.contexts.taskQueue x = []) ∧ (∀ t, s.suspensions t = 0) ∧ (∀ t, s.submissions t = 0) ∧
    s.exchanges = 0 ∧ s.setter = none ∧ s.sets = [] ∧ s.returned = []

def machine (V Coro Ctx : Type) [DecidableEq Coro] [DecidableEq Ctx] :
    Library.Machine (State V Coro Ctx) (Action V Coro Ctx) := ⟨Fresh,step⟩

def Pc.draining : Pc → Bool
  | .drain _ | .resume _ _ => true
  | _ => false

/-- The awaiter that lives in the frame of a coroutine at this point. -/
def Pc.awaiter : Pc → Option Addr
  | .registerWait a | .isSet a | .loadState a | .compareExchange a _ | .suspended a | .awaitResume a => some a
  | _ => none

/-- `await_suspend` has returned true for `t` and its handle is in no queue yet. -/
def State.Waiting (s : State V Coro Ctx) (t : Coro) : Prop :=
  (∃ a, s.pc t = .suspended a) ∧ ∀ x, t ∉ s.contexts.taskQueue x

def initial (initialSet : Bool) : State Nat Bool Unit where
  state := if initialSet then .set else .waiting none
  storage := none
  live := fun _ => false
  ctx := fun _ => ()
  next := fun _ => none
  awaitCoro := fun _ => false
  pc := fun _ => .idle
  contexts := ⟨fun _ => [],fun _ => 0⟩
  initialSet := initialSet
  suspensions := fun _ => 0
  submissions := fun _ => 0
  exchanges := 0
  setter := none
  sets := []
  returned := []

theorem initial_fresh (initialSet : Bool) : Fresh (initial initialSet) := by cases initialSet <;> simp [Fresh,initial]

end TinyCoro.Event
