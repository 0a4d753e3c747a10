import Mathlib.Logic.Function.Basic

/-! What the synchronisation components see of the contexts: the task queue that
`submit_task` pushes to, and the counter that `register_wait` and
`unregister_wait` keep. Each update below is one indivisible step. -/
namespace TinyCoro

/-- The address of an awaiter; `none` in a pointer is `nullptr`. -/
abbrev Addr := Nat

structure Contexts (Ctx Coro : Type) where
  taskQueue : Ctx → List Coro
  numWaitTask : Ctx → Int

namespace Contexts
variable {Ctx Coro : Type} [DecidableEq Ctx] (c : Contexts Ctx Coro)

def submitTask (x : Ctx) (handle : Coro) : Contexts Ctx Coro :=
  { c with taskQueue := Function.update c.taskQueue x (c.taskQueue x ++ [handle]) }

def registerWait (x : Ctx) (registerCnt : Int) : Contexts Ctx Coro :=
  { c with numWaitTask := Function.update c.numWaitTask x (c.numWaitTask x + registerCnt) }

def unregisterWait (x : Ctx) (registerCnt : Int) : Contexts Ctx Coro :=
  { c with numWaitTask := Function.update c.numWaitTask x (c.numWaitTask x - registerCnt) }

/-- `schedule()` by the worker of `x`, which takes the front of its queue. -/
def pop (x : Ctx) (rest : List Coro) : Contexts Ctx Coro :=
  { c with taskQueue := Function.update c.taskQueue x rest }

variable {c}

@[simp,grind =] theorem registerWait_taskQueue {x : Ctx} {n : Int} : (c.registerWait x n).taskQueue = c.taskQueue := rfl

@[simp,grind =] theorem unregisterWait_taskQueue {x : Ctx} {n : Int} : (c.unregisterWait x n).taskQueue = c.taskQueue := rfl

@[simp] theorem submitTask_self {x : Ctx} {h : Coro} :
    (c.submitTask x h).taskQueue x = c.taskQueue x ++ [h] := by simp [submitTask]

@[simp] theorem submitTask_other {x y : Ctx} {h : Coro} (other : y ≠ x) :
    (c.submitTask x h).taskQueue y = c.taskQueue y := by simp [submitTask,other]

@[simp] theorem pop_self {x : Ctx} {rest : List Coro} : (c.pop x rest).taskQueue x = rest := by simp [pop]

@[simp] theorem pop_other {x y : Ctx} {rest : List Coro} (other : y ≠ x) :
    (c.pop x rest).taskQueue y = c.taskQueue y := by simp [pop,other]

@[grind =] theorem mem_submitTask {x y : Ctx} {h t : Coro} :
    t ∈ (c.submitTask x h).taskQueue y ↔ t ∈ c.taskQueue y ∨ y = x ∧ t = h := by
  by_cases same : y = x
  · subst y; simp
  · simp [same]

@[grind =] theorem mem_pop {x y : Ctx} {rest : List Coro} {t : Coro} :
    t ∈ (c.pop x rest).taskQueue y ↔ y = x ∧ t ∈ rest ∨ y ≠ x ∧ t ∈ c.taskQueue y := by
  by_cases same : y = x
  · subst y; simp
  · simp [same]

end Contexts
end TinyCoro
