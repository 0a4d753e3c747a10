import Mathlib.Data.Fintype.Defs
import TinyCoro.Library.Machine
import TinyCoro.Library.UniqueOwner
import TinyCoro.Task.Coroutine

/-! Task objects as owners of coroutine frames, and the workers that execute the
frames whose handles are submitted to them, moved out of their task or not. No
coroutine awaits another task here. -/
namespace TinyCoro.Task.Ownership
open Library

inductive Point
  | suspended
  | running
  | final
  deriving DecidableEq

/-- Where a worker is in `exec_one_task`, with its local `coro`. -/
inductive Pc
  | idle
  | running (coro : Handle)
  | done (coro : Handle)
  | clean (coro : Handle)
  deriving DecidableEq

/-- `coroutine` is `m_coroutine` of each task object, null also where there is no
object, and `awaiting` the worker to whose context an awaiter will send a suspended
coroutine back. `destructions` is a history; `misuse` records that a null handle was
used, or a frame after its destruction, while it runs or past its end. -/
structure State (Var Worker : Type) where
  coroutine : Var → Option Handle
  allocated : Handle → Bool
  state : Handle → CoroState
  point : Handle → Point
  fresh : Handle
  taskQueue : Worker → List Handle
  awaiting : Handle → Option Worker
  pc : Worker → Pc
  destructions : Handle → Nat
  misuse : Bool

/-- `move` is the move constructor, `release` is `handle() &&`, `submitMoved` is
`submit(task&&)` and `submitTask` is `submit(task&)`. -/
inductive Action (Var Worker : Type)
  | create (v : Var)
  | move (v u : Var)
  | assign (v u : Var)
  | endTask (v : Var)
  | destroy (v : Var)
  | detach (v : Var)
  | release (v : Var)
  | isReady (v : Var)
  | resume (v : Var) (finishes : Bool)
  | submit (handle : Handle) (w : Worker)
  | submitTask (v : Var) (w : Worker)
  | submitMoved (v : Var) (w : Worker)
  | resubmit (handle : Handle)
  | exec (w : Worker)
  | suspend (w : Worker)
  | coReturn (w : Worker)
  | step (w : Worker)

variable {Var Worker : Type} [DecidableEq Var] [DecidableEq Worker]

def State.misused (s : State Var Worker) (bad : Bool) : State Var Worker := { s with misuse := s.misuse || bad }

/-- The promise is accessed. -/
def State.touch (s : State Var Worker) (h : Handle) : State Var Worker := s.misused (!s.allocated h)

/-- `done()`, which only a suspended coroutine answers. -/
def State.query (s : State Var Worker) (h : Handle) : State Var Worker := s.misused (!s.allocated h || s.point h = .running)

def State.destroyFrame (s : State Var Worker) (h : Handle) : State Var Worker :=
  { s.query h with
    allocated := Function.update s.allocated h false
    destructions := Function.update s.destructions h (s.destructions h + 1) }

def State.endTask (s : State Var Worker) (v : Var) : State Var Worker :=
  match s.coroutine v with
  | none => s
  | some h => { s.destroyFrame h with coroutine := Function.update s.coroutine v none }

def State.push (s : State Var Worker) (h : Handle) (w : Worker) : State Var Worker :=
  { s with taskQueue := Function.update s.taskQueue w (s.taskQueue w ++ [h]) }

/-- `detach` asserts that the task has a frame. -/
def State.detach (s : State Var Worker) (v : Var) : State Var Worker :=
  match s.coroutine v with
  | none => s.misused true
  | some h =>
    { s.touch h with
      state := Function.update s.state h .detach
      coroutine := Function.update s.coroutine v none }

def step (s : State Var Worker) : Action Var Worker → Option (State Var Worker)
  | .create v =>
    if s.coroutine v = none then
      some { s with
        coroutine := Function.update s.coroutine v (some s.fresh)
        allocated := Function.update s.allocated s.fresh true
        state := Function.update s.state s.fresh .normal
        point := Function.update s.point s.fresh .suspended
        fresh := s.fresh + 1 }
    else none
  | .move v u =>
    if s.coroutine v = none then
      some { s with coroutine := Function.update (Function.update s.coroutine u none) v (s.coroutine u) }
    else none
  | .assign v u =>
    if u = v then some s
    else
      some { s.endTask v with
        coroutine := Function.update (Function.update (s.endTask v).coroutine u none) v ((s.endTask v).coroutine u) }
  | .endTask v | .destroy v => some (s.endTask v)
  | .detach v => some (s.detach v)
  | .release v => some { s with coroutine := Function.update s.coroutine v none }
  | .isReady v =>
    match s.coroutine v with
    | none => some s
    | some h => some (s.query h)
  | .resume v finishes =>
    match s.coroutine v with
    | none => some (s.misused true)
    | some h =>
      if s.point h = .final then some (s.query h)
      else some { s.query h with point := Function.update s.point h (if finishes then .final else .suspended) }
  | .submit handle w => some (s.push handle w)
  | .submitTask v w =>
    match s.coroutine v with
    | none => some (s.misused true)
    | some h => some (s.push h w)
  | .submitMoved v w =>
    match s.coroutine v with
    | none => some (s.detach v)
    | some h => some ((s.detach v).push h w)
  | .resubmit handle =>
    match s.awaiting handle with
    | none => none
    | some w => some { s.push handle w with awaiting := Function.update s.awaiting handle none }
  | .exec w =>
    match s.pc w, s.taskQueue w with
    | .idle, coro::rest =>
      some { s.misused (!s.allocated coro || s.point coro ≠ .suspended) with
        taskQueue := Function.update s.taskQueue w rest
        point := Function.update s.point coro .running
        pc := Function.update s.pc w (.running coro) }
    | _, _ => none
  | .suspend w =>
    match s.pc w with
    | .running coro =>
      some { s with
        point := Function.update s.point coro .suspended
        awaiting := Function.update s.awaiting coro (some w)
        pc := Function.update s.pc w (.done coro) }
    | _ => none
  | .coReturn w =>
    match s.pc w with
    | .running coro =>
      some { s with
        point := Function.update s.point coro .final
        pc := Function.update s.pc w (.done coro) }
    | _ => none
  | .step w =>
    match s.pc w with
    | .done coro =>
      some { s.query coro with pc := Function.update s.pc w (if s.point coro = .final then .clean coro else .idle) }
    | .clean coro =>
      if s.state coro = .detach then some { s.destroyFrame coro with pc := Function.update s.pc w .idle }
      else some { s.touch coro with pc := Function.update s.pc w .idle }
    | _ => none

def Fresh (s : State Var Worker) : Prop :=
  (∀ v, s.coroutine v = none) ∧ (∀ h, s.allocated h = false) ∧ (∀ h, s.point h = .suspended) ∧ s.fresh = 0 ∧
    (∀ w, s.taskQueue w = []) ∧ (∀ h, s.awaiting h = none) ∧ (∀ w, s.pc w = .idle) ∧ (∀ h, s.destructions h = 0) ∧
    s.misuse = false

def machine (Var Worker : Type) [DecidableEq Var] [DecidableEq Worker] : Machine (State Var Worker) (Action Var Worker) :=
  ⟨Fresh,step⟩

def Pc.coro : Pc → Option Handle
  | .idle => none
  | .running coro | .done coro | .clean coro => some coro

def InFlight (s : State Var Worker) (h : Handle) : Prop :=
  (∃ w, h ∈ s.taskQueue w) ∨ (s.awaiting h).isSome ∨ ∃ w, (s.pc w).coro = some h

/-- A frame that waits to be started or to go on, and nobody is about to do it. -/
def Startable (s : State Var Worker) (h : Handle) : Prop := s.allocated h = true ∧ s.point h = .suspended ∧ ¬ InFlight s h

/-- A task object destroys its frame, and resumes it, only while its handle is not in
flight, and only a frame that can be started is submitted. -/
def Proper (s : State Var Worker) : Action Var Worker → Prop
  | .endTask v | .destroy v => ∀ h, s.coroutine v = some h → ¬ InFlight s h
  | .assign v u => u = v ∨ ∀ h, s.coroutine v = some h → ¬ InFlight s h
  | .detach v => s.coroutine v ≠ none
  | .resume v _ => ∃ h, s.coroutine v = some h ∧ ¬ InFlight s h
  | .isReady v => ∀ h, s.coroutine v = some h → s.point h ≠ .running
  | .submit h _ => Startable s h
  | .submitTask v _ | .submitMoved v _ => ∃ h, s.coroutine v = some h ∧ Startable s h
  | _ => True

/-- A task object gives its frame up only to a worker, which will destroy it. -/
def Tidy (s : State Var Worker) : Action Var Worker → Prop
  | .release _ => False
  | .detach v => ∀ h, s.coroutine v = some h → InFlight s h
  | _ => True

section
variable [Fintype Worker]

instance (s : State Var Worker) (h : Handle) : Decidable (InFlight s h) := inferInstanceAs (Decidable (_ ∨ _ ∨ _))

instance (s : State Var Worker) (h : Handle) : Decidable (Startable s h) := inferInstanceAs (Decidable (_ ∧ _ ∧ _))

instance (o : Option Handle) (p : Handle → Prop) [DecidablePred p] : Decidable (∀ h, o = some h → p h) :=
  decidable_of_iff (∀ h ∈ o, p h) Iff.rfl

instance (o : Option Handle) (p : Handle → Prop) [DecidablePred p] : Decidable (∃ h, o = some h ∧ p h) :=
  decidable_of_iff (∃ h ∈ o, p h) Iff.rfl

instance (s : State Var Worker) : (a : Action Var Worker) → Decidable (Proper s a)
  | .endTask v | .destroy v => inferInstanceAs (Decidable (∀ h, s.coroutine v = some h → ¬ InFlight s h))
  | .assign v u => inferInstanceAs (Decidable (u = v ∨ ∀ h, s.coroutine v = some h → ¬ InFlight s h))
  | .detach v => inferInstanceAs (Decidable (s.coroutine v ≠ none))
  | .resume v _ => inferInstanceAs (Decidable (∃ h, s.coroutine v = some h ∧ ¬ InFlight s h))
  | .isReady v => inferInstanceAs (Decidable (∀ h, s.coroutine v = some h → s.point h ≠ .running))
  | .submit h _ => inferInstanceAs (Decidable (Startable s h))
  | .submitTask v _ | .submitMoved v _ => inferInstanceAs (Decidable (∃ h, s.coroutine v = some h ∧ Startable s h))
  | .create _ | .move _ _ | .release _ | .resubmit _ | .exec _ | .suspend _ | .coReturn _ | .step _ => .isTrue trivial

instance (s : State Var Worker) : (a : Action Var Worker) → Decidable (Tidy s a)
  | .release _ => .isFalse id
  | .detach v => inferInstanceAs (Decidable (∀ h, s.coroutine v = some h → InFlight s h))
  | .create _ | .move _ _ | .assign _ _ | .endTask _ | .destroy _ | .isReady _ | .resume _ _ | .submit _ _ | .submitTask _ _
  | .submitMoved _ _ | .resubmit _ | .exec _ | .suspend _ | .coReturn _ | .step _ => .isTrue trivial

end
end TinyCoro.Task.Ownership
