import TinyCoro.Library.Machine
import TinyCoro.Task.Coroutine

/-! Coroutine frames from the detached root to the temporary tasks below it, and
an engine that resumes the handles submitted to it. A body is the tree of the
co_awaits it executes; the awaiters of other components are a suspension and a
later submission of the same handle. -/
namespace TinyCoro.Task.Lifecycle
open Library

/-- `semicolon` is the end of a full expression, where the temporary tasks
awaited since the last one are destroyed. -/
inductive Coroutine
  | coReturn
  | coAwait (child rest : Coroutine)
  | suspend (rest : Coroutine)
  | semicolon (rest : Coroutine)

/-- Where the worker is inside `exec_one_task`; `popped` is its local `coro`. -/
inductive Pc
  | idle
  | running (popped current : Handle)
  | done (popped : Handle)
  | clean (popped : Handle)
  deriving DecidableEq

/-- Frames by their handles. `body` is `none` at the final suspend point,
`temporaries` are the handles owned by the live task objects of the current full
expression, and `owned` tells which handles some live task object holds.
`finished` and `destructions` are histories; `misuse` records that a frame was
queried, resumed or destroyed after its destruction, or destroyed by the engine
while owned. -/
structure State where
  allocated : Handle → Bool
  state : Handle → CoroState
  continuation : Handle → Option Handle
  body : Handle → Option Coroutine
  temporaries : Handle → List Handle
  fresh : Handle
  owned : Handle → Bool
  parked : List Handle
  taskQueue : List Handle
  pc : Pc
  finished : Handle → Bool
  destructions : Handle → Nat
  misuse : Bool

inductive Action
  | exec
  | step
  | submit (handle : Handle)

def State.use (s : State) (handle : Handle) : State :=
  { s with misuse := s.misuse || !s.allocated handle }

def State.destroy (s : State) (handle : Handle) : State :=
  { s with
    allocated := Function.update s.allocated handle false
    destructions := Function.update s.destructions handle (s.destructions handle + 1)
    misuse := s.misuse || !s.allocated handle }

def State.endTask (s : State) (handle : Handle) : State :=
  { s.destroy handle with owned := Function.update s.owned handle false }

/-- The temporaries of a full expression end in the reverse order of their creation. -/
def State.endTemporaries (s : State) (temporaries : List Handle) : State :=
  temporaries.foldr (fun handle s => s.endTask handle) s

/-- The body of `current` goes on inside the `resume()` of `popped`. -/
def State.advance (s : State) (popped current : Handle) : Coroutine → State
  | .suspend rest =>
    { s with
      body := Function.update s.body current (some rest)
      parked := s.parked ++ [current]
      pc := .done popped }
  | .coAwait child rest =>
    { s with
      allocated := Function.update s.allocated s.fresh true
      state := Function.update s.state s.fresh .normal
      continuation := Function.update s.continuation s.fresh (some current)
      body := Function.update (Function.update s.body current (some rest)) s.fresh (some child)
      temporaries := Function.update (Function.update s.temporaries current (s.temporaries current ++ [s.fresh])) s.fresh []
      fresh := s.fresh + 1
      owned := Function.update s.owned s.fresh true
      pc := .running popped s.fresh }
  | .semicolon rest =>
    { s.endTemporaries (s.temporaries current) with
      body := Function.update s.body current (some rest)
      temporaries := Function.update s.temporaries current [] }
  | .coReturn =>
    -- `final_awaiter` transfers to the continuation, or to a coroutine that does nothing
    { s.endTemporaries (s.temporaries current) with
      body := Function.update s.body current none
      temporaries := Function.update s.temporaries current []
      finished := Function.update s.finished current true
      pc := (s.continuation current).elim (.done popped) (.running popped) }

def step (s : State) : Action → Option State
  | .exec =>
    match s.pc, s.taskQueue with
    | .idle, popped::rest => some { s with taskQueue := rest, pc := .running popped popped }
    | _, _ => none
  | .step =>
    match s.pc with
    | .idle => none
    | .running popped current =>
      match s.body current with
      | some code => some ((s.use current).advance popped current code)
      -- resuming a coroutine at its final suspend point is undefined
      | none => some { s with pc := .done popped, misuse := true }
    | .done popped => some { s.use popped with pc := if (s.body popped).isNone then .clean popped else .idle }
    | .clean popped =>
      if s.state popped = .detach then
        some { s.destroy popped with pc := .idle, misuse := (s.destroy popped).misuse || s.owned popped }
      else some { s.use popped with pc := .idle }
  | .submit handle =>
    if handle ∈ s.parked then
      some { s with parked := s.parked.erase handle, taskQueue := s.taskQueue ++ [handle] }
    else none

def start (root : Coroutine) : State where
  allocated := fun h => h == 0
  state := fun h => if h = 0 then .detach else .normal
  continuation := fun _ => none
  body := fun h => if h = 0 then some root else none
  temporaries := fun _ => []
  fresh := 1
  owned := fun _ => false
  parked := []
  taskQueue := [0]
  pc := .idle
  finished := fun _ => false
  destructions := fun _ => 0
  misuse := false

def machine (root : Coroutine) : Machine State Action := ⟨fun s => s = start root,step⟩

/-- No destroyed frame is used and no owned frame destroyed, and once the root
has finished and `exec_one_task` has returned its frame was destroyed exactly once. -/
def CleansUp (s : State) : Prop :=
  s.misuse = false ∧ (s.pc = .idle → s.finished 0 = true → s.destructions 0 = 1)

namespace Coroutine

def suspends : Coroutine → Bool
  | .coReturn => false
  | .coAwait child rest => child.suspends || rest.suspends
  | .suspend _ => true
  | .semicolon rest => rest.suspends

/-- The coroutine itself suspends before the current full expression ends. -/
def pending : Coroutine → Bool
  | .coReturn => false
  | .coAwait _ rest => rest.pending
  | .suspend _ => true
  | .semicolon _ => false

/-- Wherever a child that suspends is awaited, the awaiting coroutine suspends
itself before the full expression of that co_await ends. -/
def outlives : Coroutine → Bool
  | .coReturn => true
  | .coAwait child rest => child.outlives && rest.outlives && (!child.suspends || rest.pending)
  | .suspend rest => rest.outlives
  | .semicolon rest => rest.outlives

end Coroutine
end TinyCoro.Task.Lifecycle
