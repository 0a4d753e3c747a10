import Mathlib.Algebra.Group.Nat.Defs
import Mathlib.Algebra.Group.Int.Defs
import TinyCoro.Library.Machine
import TinyCoro.Comp.Contexts

/-! The wait group, one atomic access per step. Every coroutine may call `wait`,
`add` and `done` any number of times; an address whose awaiter is gone may be
taken by a later awaiter. -/
namespace TinyCoro.WaitGroup

inductive Pc
  | idle
  | registerWait (self : Addr)
  | loadCount (self : Addr)
  | loadState (self : Addr)
  | compareExchange (self : Addr) (head : Option Addr)
  | suspended (self : Addr)
  | awaitResume (self : Addr)
  | exchange
  | drain (head : Option Addr)
  | resume (head : Addr) (next : Option Addr)
  deriving DecidableEq

/-- The fields of the awaiters are kept by address. `suspensions` and
`submissions` are histories that no step reads: how often `await_suspend`
returned true for a coroutine, and how often its handle was submitted. -/
structure State (Coro Ctx : Type) where
  count : Int
  state : Option Addr
  live : Addr → Bool
  ctx : Addr → Ctx
  next : Addr → Option Addr
  awaitCoro : Addr → Coro
  pc : Coro → Pc
  contexts : Contexts Ctx Coro
  suspensions : Coro → Nat
  submissions : Coro → Nat

inductive Action (Coro Ctx : Type)
  | wait (t : Coro) (self : Addr) (x : Ctx)
  | add (t : Coro) (count : Int)
  | done (t : Coro)
  | step (t : Coro)
  | spurious (t : Coro)
  | exec (x : Ctx)

/-- `std::atomic<int32_t>` arithmetic wraps. -/
def int32 (n : Int) : Int := n.bmod (2^32)

variable {Coro Ctx : Type} [DecidableEq Coro] [DecidableEq Ctx]

def State.goto (s : State Coro Ctx) (t : Coro) (p : Pc) : State Coro Ctx :=
  { s with pc := Function.update s.pc t p }

def advance (s : State Coro Ctx) (t : Coro) : Option (State Coro Ctx) :=
  match s.pc t with
  | .idle => none
  | .registerWait self =>
    some { s.goto t (.loadCount self) with contexts := s.contexts.registerWait (s.ctx self) 1 }
  | .loadCount self =>
    if s.count = 0 then some (s.goto t (.awaitResume self)) else some (s.goto t (.loadState self))
  | .loadState self =>
    some { s.goto t (.compareExchange self s.state) with next := Function.update s.next self s.state }
  | .compareExchange self head =>
    if s.state = head then
      some { s.goto t (.suspended self) with
        state := some self
        suspensions := Function.update s.suspensions t (s.suspensions t + 1) }
    else some (s.goto t (.loadCount self))
  | .suspended _ => none
  | .awaitResume self =>
    -- after `await_resume` the full expression ends and the awaiter is gone
    some { s.goto t .idle with
      contexts := s.contexts.unregisterWait (s.ctx self) 1
      live := Function.update s.live self false }
  | .exchange => some { s.goto t (.drain s.state) with state := none }
  | .drain none => some (s.goto t .idle)
  | .drain (some head) => some (s.goto t (.resume head (s.next head)))
  | .resume head next =>
    some { s.goto t (.drain next) with
      contexts := s.contexts.submitTask (s.ctx head) (s.awaitCoro head)
      submissions := Function.update s.submissions (s.awaitCoro head) (s.submissions (s.awaitCoro head) + 1) }

def step (s : State Coro Ctx) : Action Coro Ctx → Option (State Coro Ctx)
  | .wait t self x =>
    if s.pc t = .idle ∧ s.live self = false then
      some { s.goto t (.registerWait self) with
        live := Function.update s.live self true
        ctx := Function.update s.ctx self x
        next := Function.update s.next self none
        awaitCoro := Function.update s.awaitCoro self t }
    else none
  | .add t count => if s.pc t = .idle then some { s with count := int32 (s.count + count) } else none
  | .done t =>
    if s.pc t = .idle then
      some { s.goto t (if s.count = 1 then .exchange else .idle) with count := int32 (s.count - 1) }
    else none
  | .step t => advance s t
  | .spurious t =>
    -- `compare_exchange_weak` may fail although the head is unchanged
    match s.pc t with
    | .compareExchange self _ => some (s.goto t (.loadCount self))
    | _ => none
  | .exec x =>
    match s.contexts.taskQueue x with
    | [] => none
    | handle::rest =>
      match s.pc handle with
      | .suspended self => some { s.goto handle (.awaitResume self) with contexts := s.contexts.pop x rest }
      | _ => none

def Fresh (s : State Coro Ctx) : Prop :=
  0 ≤ s.count ∧ s.count < 2^31 ∧ s.state = none ∧ (∀ a, s.live a = false) ∧ (∀ t, s.pc t = .idle) ∧
    (∀ x, s.contexts.taskQueue x = []) ∧ (∀ t, s.suspensions t = 0) ∧ ∀ t, s.submissions t = 0

def machine (Coro Ctx : Type) [DecidableEq Coro] [DecidableEq Ctx] :
    Library.Machine (State Coro Ctx) (Action Coro Ctx) := ⟨Fresh,step⟩

/-- Inside `done` after a `fetch_sub` that returned 1. -/
def Pc.draining : Pc → Bool
  | .exchange | .drain _ | .resume _ _ => true
  | _ => false

def Pc.awaiter : Pc → Option Addr
  | .registerWait a | .loadCount a | .loadState a | .compareExchange a _ | .suspended a | .awaitResume a => some a
  | _ => none

def State.Waiting (s : State Coro Ctx) (t : Coro) : Prop :=
  (∃ a, s.pc t = .suspended a) ∧ ∀ x, t ∉ s.contexts.taskQueue x

end TinyCoro.WaitGroup
