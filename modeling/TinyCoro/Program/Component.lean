import TinyCoro.Library.Machine
import TinyCoro.Library.Membership
import TinyCoro.Comp.Contexts

/-! What a program sees of a synchronisation component: its steps, which coroutine
takes them, and where its waits are. -/
namespace TinyCoro.Program
open Library

/-- `site` is the context of the awaiter that an action constructs, `home` that of
the awaiter in the frame of a coroutine; `registered` is the latter while the
`register_wait` of this wait has run and its `await_resume` has not. The contexts of
a component hold what it alone has put there. -/
structure Component (Coro Ctx : Type) where
  State : Type
  Action : Type
  machine : Machine State Action
  contexts : State → Contexts Ctx Coro
  actor : Action → Option Coro
  site : Action → Option Ctx
  exec : Ctx → Action
  idle : State → Coro → Bool
  suspended : State → Coro → Bool
  home : State → Coro → Option Ctx
  registered : State → Coro → Option Ctx

namespace Component
variable {Coro Ctx : Type} [DecidableEq Ctx]

/-- The waits begun on `x` that are registered. -/
def waiting (C : Component Coro Ctx) (c : C.State) (x : Ctx) : Set Coro := { t | C.registered c t = some x }

structure Acts (C : Component Coro Ctx) (c c' : C.State) (t : Coro) (site : Option Ctx) : Prop where
  idle : ∀ u, u ≠ t → C.idle c' u = C.idle c u
  suspended : ∀ u, u ≠ t → C.suspended c' u = C.suspended c u
  home : ∀ u, u ≠ t → C.home c' u = C.home c u
  registered : ∀ u, u ≠ t → C.registered c' u = C.registered c u
  tracks : Tracks (C.registered c t) (C.registered c' t) (C.contexts c).numWaitTask (C.contexts c').numWaitTask
  queue : ∀ x, ∃ more, (C.contexts c').taskQueue x = (C.contexts c).taskQueue x ++ more
  place : C.home c' t = C.home c t ∨ C.home c' t = none ∨ C.home c' t = site

section
variable {C : Component Coro Ctx} {c c' : C.State} {t : Coro} {site : Option Ctx}

theorem Acts.waiting (acts : C.Acts c c' t site) {u : Coro} (other : u ≠ t) (x : Ctx) :
    u ∈ C.waiting c' x ↔ u ∈ C.waiting c x := iff_of_eq (congrArg (· = some x) (acts.registered u other))

theorem Acts.moves (acts : C.Acts c c' t site) (x : Ctx) :
    Moves (t ∈ C.waiting c x) (t ∈ C.waiting c' x) ((C.contexts c).numWaitTask x) ((C.contexts c').numWaitTask x) :=
  acts.tracks.moves x

end

structure Pops (C : Component Coro Ctx) (c c' : C.State) (x : Ctx) (t : Coro) (rest : List Coro) : Prop where
  front : (C.contexts c).taskQueue x = t::rest
  queue : (C.contexts c').taskQueue = Function.update (C.contexts c).taskQueue x rest
  idle : ∀ u, u ≠ t → C.idle c' u = C.idle c u
  suspended : ∀ u, u ≠ t → C.suspended c' u = C.suspended c u
  home : ∀ u, C.home c' u = C.home c u
  registered : ∀ u, C.registered c' u = C.registered c u
  resumed : C.idle c' t = false ∧ C.suspended c' t = false

theorem Pops.waiting {C : Component Coro Ctx} {c c' : C.State} {x : Ctx} {t : Coro} {rest : List Coro}
    (pops : C.Pops c c' x t rest) (u : Coro) (y : Ctx) : u ∈ C.waiting c' y ↔ u ∈ C.waiting c y :=
  iff_of_eq (congrArg (· = some y) (pops.registered u))

/-- What the program relies on, in the reachable states of the component. -/
structure Lawful (C : Component Coro Ctx) : Prop where
  fresh : ∀ c, C.machine.start c → (∀ t, C.idle c t = true) ∧ ∀ x, (C.contexts c).taskQueue x = []
  bare : ∀ c t, C.idle c t = true → C.home c t = none
  home : ∀ c, C.machine.Reachable c → ∀ x t, C.registered c t = some x → C.home c t = some x
  asleep : ∀ c, C.machine.Reachable c → ∀ t, C.suspended c t = true → ∃ x, C.registered c t = some x
  queued : ∀ c, C.machine.Reachable c → ∀ x, ∀ t ∈ (C.contexts c).taskQueue x,
    C.suspended c t = true ∧ C.home c t = some x
  acts : ∀ c c' a t, C.machine.Reachable c → C.machine.step c a = some c' → C.actor a = some t → C.Acts c c' t (C.site a)
  pops : ∀ c c' x, C.machine.Reachable c → C.machine.step c (C.exec x) = some c' → ∃ t rest, C.Pops c c' x t rest

end Component
end TinyCoro.Program
