import TinyCoro.Context.Worker
import TinyCoro.Program.Component

/-! A program: contexts with their workers, and any family of components that their
coroutines share. One step is a step of one worker, of another thread on a context, or of a
coroutine inside a function of a component. -/
namespace TinyCoro.Program
open Library

/-- A coroutine is free to act, has its handle in a task queue, or is inside a
component, be it suspended there or not. -/
inductive Place (ι : Type)
  | free
  | queued
  | inside (i : ι)
  deriving DecidableEq

variable {Coro Ctx ι : Type} [DecidableEq Coro] [DecidableEq Ctx] [DecidableEq ι]

/-- `acting` is the coroutine that the worker of a context has inside a component. -/
structure State (C : ι → Component Coro Ctx) where
  ctxs : Ctx → Context.State Coro
  comps : ∀ i, (C i).State
  place : Coro → Place ι
  acting : Ctx → Option Coro

inductive Action (C : ι → Component Coro Ctx)
  | context (x : Ctx) (a : Context.Action Coro)
  | call (x : Ctx) (i : ι) (a : (C i).Action)

def suspends : Context.Pc Coro → Context.Pc Coro
  | .running left _ => .exec left
  | pc => pc

/-- What a component has just done to its contexts: the waits it registered or
unregistered, and the handles it pushed, for which a `wake_up` follows. -/
def follow (c : Context.State Coro) (before after : Contexts Ctx Coro) (x : Ctx) : Context.State Coro :=
  let more := (after.taskQueue x).drop (before.taskQueue x).length
  { c with
    taskQueue := c.taskQueue ++ more
    waking := c.waking + more.length
    numWaitTask := c.numWaitTask + (after.numWaitTask x - before.numWaitTask x) }

variable {C : ι → Component Coro Ctx}

/-- After a step of `t`, on the worker of `x`, inside the component `i`. -/
def State.settle (s : State C) (x : Ctx) (i : ι) (t : Coro) (c : (C i).State) : State C where
  ctxs := fun y =>
    let followed := follow (s.ctxs y) ((C i).contexts (s.comps i)) ((C i).contexts c) y
    if y = x ∧ (C i).suspended c t then { followed with pc := suspends followed.pc } else followed
  comps := Function.update s.comps i c
  place := Function.update s.place t (if (C i).idle c t then .free else .inside i)
  acting := Function.update s.acting x (if (C i).idle c t ∨ (C i).suspended c t then none else some t)

/-- A coroutine that the worker of `x` executes begins a call, or goes on in the one
it is in. Coroutines nest, so its handle need not be the one that was popped. -/
def call (s : State C) (x : Ctx) (i : ι) (a : (C i).Action) : Option (State C) :=
  match (C i).actor a with
  | none => none
  | some t =>
    if Context.isRunning (s.ctxs x).pc ∧ ((C i).site a = none ∨ (C i).site a = some x) ∧
        (s.acting x = none ∧ s.place t = .free ∨ s.acting x = some t ∧ s.place t = .inside i) then
      ((C i).machine.step (s.comps i) a).map (s.settle x i t)
    else none

def State.context (s : State C) (x : Ctx) (c : Context.State Coro) : State C :=
  { s with ctxs := Function.update s.ctxs x c }

/-- The worker has popped `handle`; a wait in a component goes on with `await_resume`. -/
def State.popped (s : State C) (x : Ctx) (handle : Coro) : Option (State C) :=
  match s.place handle with
  | .free => none
  | .queued => some { s with place := Function.update s.place handle .free }
  | .inside i =>
    ((C i).machine.step (s.comps i) ((C i).exec x)).map fun c =>
      { s with comps := Function.update s.comps i c, acting := Function.update s.acting x (some handle) }

def work (s : State C) (x : Ctx) : Option (State C) :=
  match Context.advance (s.ctxs x) with
  | none => none
  | some c =>
    match (s.ctxs x).pc, (s.ctxs x).taskQueue with
    | .exec (_+1), handle::_ => (s.context x c).popped x handle
    | _, _ => some (s.context x c)

def submit (s : State C) (x : Ctx) (t : Coro) (c : Context.State Coro) : Option (State C) :=
  if s.place t = .free then some { s.context x c with place := Function.update s.place t .queued } else none

/-- Waits are registered by components only, and the components do no io. -/
def step (s : State C) : Action C → Option (State C)
  | .context x .step => work s x
  | .context x .suspend =>
    if s.acting x = none then (Context.step (s.ctxs x) .suspend).map (s.context x) else none
  | .context x (.submitSelf t) =>
    if s.acting x = none then (Context.step (s.ctxs x) (.submitSelf t)).bind (submit s x t) else none
  | .context x (.push t) => (Context.step (s.ctxs x) (.push t)).bind (submit s x t)
  | .context x .wake => (Context.step (s.ctxs x) .wake).map (s.context x)
  | .context x .requestStop => (Context.step (s.ctxs x) .requestStop).map (s.context x)
  | .context x .stopWake => (Context.step (s.ctxs x) .stopWake).map (s.context x)
  | .context _ _ => none
  | .call x i a => call s x i a

/-- Before the contexts are started, with any tasks submitted, none of them twice. -/
def Fresh (s : State C) : Prop :=
  (∀ x, Context.Fresh { s.ctxs x with efd := 0 }) ∧ (∀ x, (s.ctxs x).taskQueue.Nodup) ∧
    (∀ x y t, t ∈ (s.ctxs x).taskQueue → t ∈ (s.ctxs y).taskQueue → x = y) ∧
    (∀ i, (C i).machine.start (s.comps i)) ∧ (∀ x, s.acting x = none) ∧
    ∀ t, s.place t = .queued ∧ (∃ x, t ∈ (s.ctxs x).taskQueue) ∨ s.place t = .free ∧ ∀ x, t ∉ (s.ctxs x).taskQueue

def machine (C : ι → Component Coro Ctx) : Machine (State C) (Action C) := ⟨Fresh,step⟩

/-- The waits begun on `x`, in any component, that are registered. -/
def State.waiting (s : State C) (x : Ctx) : Set Coro := { t | ∃ i, s.place t = .inside i ∧ t ∈ (C i).waiting (s.comps i) x }

/-- The coroutines of `x` that are suspended in a component. -/
def State.suspended (s : State C) (x : Ctx) : Set Coro :=
  { t | ∃ i, s.place t = .inside i ∧ (C i).suspended (s.comps i) t = true ∧ (C i).home (s.comps i) t = some x }

end TinyCoro.Program
