import TinyCoro.Program.LatchFrames
import TinyCoro.Program.MutexFrames
import TinyCoro.Program.WaitBalance
import TinyCoro.Program.WaitGroupFrames
import TinyCoro.Scheduler.Loop

/-! Programs over any number of events, latches, wait groups and mutexes with their
condition variables. -/
namespace TinyCoro.Program
open Library

/-- A mutex comes with the condition variables that wait on it. -/
inductive Kind : Type 1
  | event (V : Type)
  | latch
  | waitGroup
  | mutex (Cv Shared : Type) (deq : DecidableEq Cv)

section
variable (Coro Ctx : Type) [DecidableEq Coro] [DecidableEq Ctx]

def Kind.frames : Kind → Frames Coro Ctx
  | .event V => Event.frames V Coro Ctx
  | .latch => Latch.frames Coro Ctx
  | .waitGroup => WaitGroup.frames Coro Ctx
  | .mutex Cv Shared _ => Mutex.frames Coro Ctx Cv Shared

variable {ι : Type} (kinds : ι → Kind)

def components (i : ι) : Component Coro Ctx := ((kinds i).frames Coro Ctx).component

theorem Kind.lawful (kind : Kind) : (kind.frames Coro Ctx).Lawful := by
  cases kind with
  | event => exact Event.frames_lawful
  | latch => exact Latch.frames_lawful
  | waitGroup => exact WaitGroup.frames_lawful
  | mutex => exact Mutex.frames_lawful

end

/-- Every run of coroutines and contexts, whatever components they share. -/
theorem waits_balanced {Coro Ctx ι : Type} [DecidableEq Coro] [DecidableEq Ctx] [DecidableEq ι] (kinds : ι → Kind)
    (s : State (components Coro Ctx kinds)) (reachable : (machine (components Coro Ctx kinds)).Reachable s) : WaitsBalanced s := by
  have lawful : ∀ i, (components Coro Ctx kinds i).Lawful := fun i => ((kinds i).lawful Coro Ctx).component
  exact (reachable_counted lawful s reachable).balanced lawful

def start : State (components Bool Unit fun _ : Unit => .event Nat) where
  ctxs := fun _ => Context.newContext [false,true]
  comps := fun _ => Event.initial false
  place := fun _ => .queued
  acting := fun _ => none

theorem start_fresh : Fresh start := by
  refine ⟨fun _ => Context.newContext_fresh _,fun _ => ?_,fun _ _ _ _ _ => rfl,fun _ => Event.initial_fresh false,fun _ => rfl,
    fun t => .inl ⟨rfl,(),?_⟩⟩
  · simp [start,Context.newContext]
  · cases t <;> simp [start,Context.newContext]

def waitAndSet : List (Action (components Bool Unit fun _ : Unit => .event Nat)) :=
  let event (a : Event.Action Nat Bool Unit) := Action.call () () a
  [.context () .step,.context () .step,event (.wait false 0 ()),event (.step false),event (.step false),event (.step false),
    event (.step false),.context () .step,event (.set true none),event (.step true),event (.step true),event (.step true)]

theorem set_before_leaving : ∃ s, (machine _).run start waitAndSet = some s ∧ (s.ctxs ()).taskQueue = [false] ∧
    (s.ctxs ()).numWaitTask = 1 ∧ WaitsBalanced s := by
  refine ⟨_,rfl,rfl,rfl,waits_balanced (fun _ => .event Nat) _ ?_⟩
  exact Machine.run_reachable _ waitAndSet start _ (.start start_fresh) rfl

end TinyCoro.Program
