import Mathlib.Algebra.Group.Nat.Defs
import Mathlib.Algebra.Group.Int.Defs
import TinyCoro.Comp.Event

/-! The latch: an event and the count that sets it. -/
namespace TinyCoro.Latch
open Library

structure State (Coro Ctx : Type) where
  ev : Event.State Unit Coro Ctx
  count : Int

inductive Action (Coro Ctx : Type)
  | wait (t : Coro) (self : Addr) (x : Ctx)
  | countDown (t : Coro)
  | step (t : Coro)
  | spurious (t : Coro)
  | exec (x : Ctx)

/-- `std::atomic<int64_t>` arithmetic wraps. -/
def int64 (n : Int) : Int := n.bmod (2^64)

variable {Coro Ctx : Type} [DecidableEq Coro] [DecidableEq Ctx]

def State.event (s : State Coro Ctx) (a : Event.Action Unit Coro Ctx) : Option (State Coro Ctx) :=
  (Event.step s.ev a).map fun ev => { s with ev := ev }

def step (s : State Coro Ctx) : Action Coro Ctx → Option (State Coro Ctx)
  | .wait t self x => s.event (.wait t self x)
  | .countDown t =>
    if s.ev.pc t = .idle then
      let left := { s with count := int64 (s.count - 1) }
      -- the value before the `fetch_sub`
      if s.count ≤ 1 then left.event (.set t none) else some left
    else none
  | .step t => s.event (.step t)
  | .spurious t => s.event (.spurious t)
  | .exec x => s.event (.exec x)

/-- A latch constructed with `count`, a `uint64_t`. -/
def Fresh (s : State Coro Ctx) : Prop :=
  Event.Fresh s.ev ∧ ∃ count : Nat, count < 2^64 ∧ s.count = int64 count ∧ s.ev.initialSet = decide (count = 0)

def machine (Coro Ctx : Type) [DecidableEq Coro] [DecidableEq Ctx] : Machine (State Coro Ctx) (Action Coro Ctx) := ⟨Fresh,step⟩

theorem reachable_event (s : State Coro Ctx) (reachable : (machine Coro Ctx).Reachable s) :
    (Event.machine Unit Coro Ctx).Reachable s.ev := by
  refine (machine Coro Ctx).reachable_project State.ev (fun s fresh => fresh.1) ?_ reachable
  intro s s' a moved
  have event : ∀ {s : State Coro Ctx} (b), s.event b = some s' → ∃ b, Event.step s.ev b = some s'.ev := by
    intro s b moved
    obtain ⟨ev,stepped,rfl⟩ := Option.map_eq_some_iff.mp moved
    exact ⟨b,stepped⟩
  cases a with
  | countDown t =>
    simp only [machine,step] at moved
    split at moved
    next =>
      split at moved
      next => exact .inr (event (s := { s with count := int64 (s.count - 1) }) _ moved)
      next =>
        obtain rfl := Option.some.inj moved
        exact .inl rfl
    next => contradiction
  | _ => exact .inr (event _ moved)

end TinyCoro.Latch
