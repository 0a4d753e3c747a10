import TinyCoro.Program.Settles

/-! Whole programs come to rest, whatever components their coroutines share: no schedule of
the workers and of the calls under way goes on for ever, and where it ends nobody waits for
a worker or for a coroutine that could still move. -/
namespace TinyCoro.Program
open Library

variable {Coro Ctx ι : Type} [DecidableEq Coro] [DecidableEq Ctx] [DecidableEq ι] {C : ι → Component Coro Ctx}

/-- No new call, submission or stop: the workers go on, their coroutines as far as they are
inside calls, and who has pushed a handle or requested a stop writes the eventfd. -/
def Onward (goesOn : ∀ i, (C i).Action → Prop) : Action C → Prop
  | .context _ .step | .context _ .suspend | .context _ .wake | .context _ .stopWake => True
  | .context _ _ => False
  | .call _ i a => goesOn i a

section
variable {c c' : Context.State Coro}

end

/-- Nobody waits for a step that could be taken. -/
structure Settled (atRest : ∀ i, (C i).State → Prop) (s : State C) : Prop where
  workers : ∀ x, (s.ctxs x).pc = .returned ∨
    (s.ctxs x).pc = .waitEventfd ∧ (s.ctxs x).efd = 0 ∧ (s.ctxs x).waking = 0 ∧ (s.ctxs x).taskQueue = []
  coroutines : ∀ i t, s.place t = .inside i → (C i).suspended (s.comps i) t = true
  queues : ∀ x, ∀ t ∈ (s.ctxs x).taskQueue, (s.ctxs x).pc = .returned ∧ s.place t = .queued
  components : ∀ i, atRest i (s.comps i)

def State.full (s : State C) : Prop := ∃ x, (s.ctxs x).pc.owesWake = true ∧ ¬ (s.ctxs x).canWrite Context.taskFlag

def State.size (s : State C) (x : Ctx) : Nat := (s.ctxs x).taskQueue.length

/-- The program with task queues of `kQueCap` handles, where a push to a full one waits. -/
def bounded [Fintype Ctx] (C : ι → Component Coro Ctx) : Machine (State C) (Action C) :=
  (machine C).bounded State.size Context.kQueCap

def Jammed (goesOn : ∀ i, (C i).Action → Prop) (s : State C) : Prop :=
  (machine C).Jammed State.size Context.kQueCap (Onward goesOn) s

section
variable {goesOn : ∀ i, (C i).Action → Prop} {atRest : ∀ i, (C i).State → Prop} {s s' : State C} {x : Ctx}
variable (settles : ∀ i, (C i).Settles (goesOn i) (atRest i)) (lawful : ∀ i, (C i).Lawful)

include settles

variable (counted : Counted s) (busy : Busy s) (stuck : ∀ s', ¬ (machine C).Moves (Onward goesOn) s s')
include counted busy stuck

include lawful

end

section
variable {goesOn : ∀ i, (C i).Action → Prop} {s : State C}

end

end TinyCoro.Program
