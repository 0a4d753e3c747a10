import Mathlib.Computability.StateTransition
import TinyCoro.Task.Container

/-! Nested coroutines over their frames: a frame holds the promise, with the
handle to continue at the final suspend point, and the rest of the body. Control
moves from handle to handle as the awaiters of `task` return them. -/
namespace TinyCoro.Task

abbrev Handle := Nat

/-- The rest of a coroutine body. `World` is what the bodies share, and
`suspendAlways` is `co_await std::suspend_always{}`. -/
inductive Coro (T : Types) (World : Type) : ReturnType → Type
  | coReturn {r : ReturnType} (v : T.Value r) : Coro T World r
  | throws {r : ReturnType} (e : T.Exception) : Coro T World r
  | coAwait {r c : ReturnType} (child : Coro T World c)
      (rest : Except T.Exception (T.Value c) → Coro T World r) : Coro T World r
  | effect {r : ReturnType} (change : World → World) (rest : World → Coro T World r) : Coro T World r
  | suspendAlways {r : ReturnType} (rest : Coro T World r) : Coro T World r

namespace Coro
variable {T : Types} {World : Type}

/-- Direct-style evaluation: a co_await is a call, a suspension nothing. -/
def eval : {r : ReturnType} → Coro T World r → World → Except T.Exception (T.Value r) × World
  | _, .coReturn v, w => (.ok v,w)
  | _, .throws e, w => (.error e,w)
  | _, .coAwait child rest, w => (rest (child.eval w).1).eval (child.eval w).2
  | _, .effect change rest, w => (rest w).eval (change w)
  | _, .suspendAlways rest, w => rest.eval w

def SuspensionFree : {r : ReturnType} → Coro T World r → Prop
  | _, .coReturn _ => True
  | _, .throws _ => True
  | _, .coAwait child rest => child.SuspensionFree ∧ ∀ o, (rest o).SuspensionFree
  | _, .effect _ rest => ∀ w, (rest w).SuspensionFree
  | _, .suspendAlways _ => False

end Coro

/-- `coro_state` of `task.hpp`. -/
inductive CoroState
  | normal
  | detach
  | none
  deriving DecidableEq

structure Promise (T : Types) (r : ReturnType) where
  state : CoroState
  continuation : Option Handle
  storage : T.Storage r

inductive Body (T : Types) (World : Type) (r : ReturnType) : Type
  | suspended (code : Coro T World r)
  | awaiting (c : ReturnType) (coroutine : Handle) (rest : Except T.Exception (T.Value c) → Coro T World r)
  | final

structure Frame (T : Types) (World : Type) where
  type : ReturnType
  promise : Promise T type
  body : Body T World type

abbrev Heap (T : Types) (World : Type) := Handle → Option (Frame T World)

/-- `returned` is the end of the outermost `resume()`. -/
inductive Control
  | running (handle : Handle)
  | returned
  | terminated
  deriving DecidableEq

structure State (T : Types) (World : Type) where
  heap : Heap T World
  fresh : Handle
  world : World
  control : Control

section
variable {T : Types} {World : Type}

/-- `task<r>`'s coroutine up to its initial suspend point. -/
def create {r : ReturnType} (continuation : Option Handle) (code : Coro T World r) : Frame T World :=
  ⟨r,⟨.normal,continuation,T.unset r⟩,.suspended code⟩

/-- The frame that a handle is destroyed with may hold a temporary task, whose
destructor destroys the next frame; `depth` bounds that chain. -/
def destroy (heap : Heap T World) (handle : Handle) : (depth : Nat) → Heap T World
  | 0 => heap
  | depth+1 =>
    match heap handle with
    | some ⟨_,_,.awaiting _ child _⟩ => destroy (Function.update heap handle none) child depth
    | _ => Function.update heap handle none

/-- The frame reaches its final suspend point, and `final_awaiter` gives the handle to go on with. -/
def State.finalSuspend (s : State T World) (handle : Handle) {r : ReturnType} (promise : Promise T r)
    (storage : T.Storage r) : State T World :=
  { s with
    heap := Function.update s.heap handle (some ⟨r,{ promise with storage := storage },.final⟩)
    control := promise.continuation.elim .returned .running }

/-- `await_resume` of a child task and the end of the temporary task object. -/
def State.awaitResume (s : State T World) (handle : Handle) {r c : ReturnType} (promise : Promise T r)
    (coroutine : Handle) (storage : T.Storage c) (rest : Except T.Exception (T.Value c) → Coro T World r) :
    State T World :=
  match (Types.result storage).outcome with
  | none => { s with control := .terminated }
  | some o =>
    { s with heap := Function.update (destroy s.heap coroutine s.fresh) handle (some ⟨r,promise,.suspended (rest o)⟩) }

def State.advance (s : State T World) (handle : Handle) {r : ReturnType} (promise : Promise T r) :
    Coro T World r → State T World
  | .coReturn v => s.finalSuspend handle promise (Types.returnValue promise.storage v)
  | .throws e => s.finalSuspend handle promise (Types.unhandledException promise.storage e)
  | .coAwait child rest =>
    -- the child is created suspended, so `await_ready` is false and
    -- `await_suspend` stores the continuation and transfers to the child
    { s with
      heap := Function.update (Function.update s.heap handle (some ⟨r,promise,.awaiting _ s.fresh rest⟩))
        s.fresh (some (create (some handle) child))
      fresh := s.fresh + 1
      control := .running s.fresh }
  | .effect change rest =>
    { s with
      heap := Function.update s.heap handle (some ⟨r,promise,.suspended (rest s.world)⟩)
      world := change s.world }
  | .suspendAlways rest =>
    { s with
      heap := Function.update s.heap handle (some ⟨r,promise,.suspended rest⟩)
      control := .returned }

def step (s : State T World) : Option (State T World) :=
  match s.control with
  | .returned | .terminated => none
  | .running handle =>
    match s.heap handle with
    | none => none
    | some ⟨_,_,.final⟩ => none
    | some ⟨_,promise,.suspended code⟩ => some (s.advance handle promise code)
    | some ⟨_,promise,.awaiting c coroutine rest⟩ =>
      match s.heap coroutine with
      | none => none
      | some ⟨c',awaited,_⟩ =>
        if same : c' = c then some (s.awaitResume handle promise coroutine (same ▸ awaited.storage) rest) else none

def start {r : ReturnType} (root : Coro T World r) (w : World) : State T World where
  heap := Function.update (fun _ => none) 0 (some (create none root))
  fresh := 1
  world := w
  control := .running 0

end
end TinyCoro.Task
