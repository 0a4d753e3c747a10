import TinyCoro.Program.Component

/-! Components whose coroutines are each at one place of the source, the awaiters in
their frames kept by address. -/
namespace TinyCoro.Program
open Library

/-- `registered` is the awaiter at a place while its `register_wait` has run and
its `await_resume` has not. -/
structure Frames (Coro Ctx : Type) where
  State : Type
  Action : Type
  Pc : Type
  machine : Machine State Action
  contexts : State → Contexts Ctx Coro
  ctx : State → Addr → Ctx
  pc : State → Coro → Pc
  actor : Action → Option Coro
  site : Action → Option Ctx
  exec : Ctx → Action
  idle : Pc → Bool
  suspended : Pc → Bool
  awaiter : Pc → Option Addr
  registered : State → Pc → Option Addr

namespace Frames
variable {Coro Ctx : Type} [DecidableEq Ctx]

def component (F : Frames Coro Ctx) : Component Coro Ctx where
  State := F.State
  Action := F.Action
  machine := F.machine
  contexts := F.contexts
  actor := F.actor
  site := F.site
  exec := F.exec
  idle s t := F.idle (F.pc s t)
  suspended s t := F.suspended (F.pc s t)
  home s t := (F.awaiter (F.pc s t)).map (F.ctx s)
  registered s t := (F.registered s (F.pc s t)).map (F.ctx s)

/-- A step of `t`, which leaves the awaiters of others where they are. -/
structure Goes (F : Frames Coro Ctx) (s s' : F.State) (t : Coro) (site : Option Ctx) : Prop where
  pc : ∀ u, u ≠ t → F.pc s' u = F.pc s u
  ctx : ∀ u, u ≠ t → ∀ a, F.awaiter (F.pc s u) = some a → F.ctx s' a = F.ctx s a
  registered : ∀ u, u ≠ t → F.registered s' (F.pc s u) = F.registered s (F.pc s u)
  tracks : Tracks ((F.registered s (F.pc s t)).map (F.ctx s)) ((F.registered s' (F.pc s' t)).map (F.ctx s'))
    (F.contexts s).numWaitTask (F.contexts s').numWaitTask
  queue : (F.contexts s').taskQueue = (F.contexts s).taskQueue ∨
    ∃ y u, (F.contexts s').taskQueue = ((F.contexts s).submitTask y u).taskQueue
  place : F.awaiter (F.pc s' t) = F.awaiter (F.pc s t) ∧ (∀ a, F.awaiter (F.pc s t) = some a → F.ctx s' a = F.ctx s a) ∨
    (F.awaiter (F.pc s' t)).map (F.ctx s') = none ∨ (F.awaiter (F.pc s' t)).map (F.ctx s') = site

/-- The worker of `x` resumes `t`. -/
structure Resumes (F : Frames Coro Ctx) (s s' : F.State) (x : Ctx) (t : Coro) (rest : List Coro) : Prop where
  front : (F.contexts s).taskQueue x = t::rest
  contexts : F.contexts s' = (F.contexts s).pop x rest
  pc : ∀ u, u ≠ t → F.pc s' u = F.pc s u
  ctx : F.ctx s' = F.ctx s
  awaiter : F.awaiter (F.pc s' t) = F.awaiter (F.pc s t)
  registered : ∀ u, F.registered s' (F.pc s' u) = F.registered s (F.pc s u)
  resumed : F.idle (F.pc s' t) = false ∧ F.suspended (F.pc s' t) = false

structure Lawful (F : Frames Coro Ctx) : Prop where
  fresh : ∀ s, F.machine.start s → (∀ t, F.idle (F.pc s t) = true) ∧ ∀ x, (F.contexts s).taskQueue x = []
  bare : ∀ p, F.idle p = true → F.awaiter p = none
  within : ∀ s p a, F.registered s p = some a → F.awaiter p = some a
  asleep : ∀ s, F.machine.Reachable s → ∀ t, F.suspended (F.pc s t) = true → ∃ a, F.registered s (F.pc s t) = some a
  queued : ∀ s, F.machine.Reachable s → ∀ x, ∀ t ∈ (F.contexts s).taskQueue x,
    F.suspended (F.pc s t) = true ∧ ∃ a, F.awaiter (F.pc s t) = some a ∧ F.ctx s a = x
  goes : ∀ s s' a t, F.machine.Reachable s → F.machine.step s a = some s' → F.actor a = some t → F.Goes s s' t (F.site a)
  resumes : ∀ s s' x, F.machine.Reachable s → F.machine.step s (F.exec x) = some s' → ∃ t rest, F.Resumes s s' x t rest

variable {F : Frames Coro Ctx} {s s' : F.State} {t : Coro}

theorem Goes.acts {site : Option Ctx} (within : ∀ s p a, F.registered s p = some a → F.awaiter p = some a)
    (goes : F.Goes s s' t site) : F.component.Acts s s' t site where
  idle u other := congrArg F.idle (goes.pc u other)
  suspended u other := congrArg F.suspended (goes.pc u other)
  home u other := by
    dsimp only [component]
    rw [goes.pc u other]
    exact Option.map_congr (goes.ctx u other)
  registered u other := by
    dsimp only [component]
    rw [goes.pc u other,goes.registered u other]
    exact Option.map_congr fun a there => goes.ctx u other a (within s _ a there)
  tracks := goes.tracks
  queue x := by
    dsimp only [component]
    rcases goes.queue with same | ⟨y,u,pushed⟩
    · exact ⟨[],by rw [same,List.append_nil]⟩
    · rw [pushed]
      by_cases here : x = y
      · subst here
        exact ⟨[u],Contexts.submitTask_self⟩
      · exact ⟨[],by rw [Contexts.submitTask_other here,List.append_nil]⟩
  place := by
    rcases goes.place with ⟨same,kept⟩ | moved
    · refine .inl ?_
      dsimp only [component]
      rw [same]
      exact Option.map_congr kept
    · exact .inr moved

theorem Resumes.pops {x : Ctx} {rest : List Coro} (resumes : F.Resumes s s' x t rest) : F.component.Pops s s' x t rest where
  front := resumes.front
  queue := congrArg Contexts.taskQueue resumes.contexts
  idle u other := congrArg F.idle (resumes.pc u other)
  suspended u other := congrArg F.suspended (resumes.pc u other)
  home u := by
    dsimp only [component]
    rw [resumes.ctx]
    by_cases mine : u = t
    · subst mine
      rw [resumes.awaiter]
    · rw [resumes.pc u mine]
  registered u := by
    dsimp only [component]
    rw [resumes.ctx,resumes.registered u]
  resumed := resumes.resumed

section
variable [DecidableEq Coro] {p q : F.Pc} {site : Option Ctx}

theorem Goes.of_update (before : F.pc s t = p) (pc : F.pc s' = Function.update (F.pc s) t q) (ctx : F.ctx s' = F.ctx s)
    (registered : ∀ u, u ≠ t → F.registered s' (F.pc s u) = F.registered s (F.pc s u))
    (tracks : Tracks ((F.registered s p).map (F.ctx s)) ((F.registered s' q).map (F.ctx s))
      (F.contexts s).numWaitTask (F.contexts s').numWaitTask)
    (queue : (F.contexts s').taskQueue = (F.contexts s).taskQueue ∨
      ∃ y u, (F.contexts s').taskQueue = ((F.contexts s).submitTask y u).taskQueue)
    (awaiter : F.awaiter q = F.awaiter p ∨ F.awaiter q = none) : F.Goes s s' t site where
  pc u other := by rw [pc,Function.update_of_ne other]
  ctx u _ a _ := congrFun ctx a
  registered := registered
  tracks := by
    rw [pc,Function.update_self,ctx,before]
    exact tracks
  queue := queue
  place := by
    rw [pc,Function.update_self,ctx,before]
    rcases awaiter with same | none
    · exact .inl ⟨same,fun _ _ => rfl⟩
    · refine .inr (.inl ?_)
      rw [none]
      rfl

theorem Goes.of_quiet (before : F.pc s t = p) (pc : F.pc s' = Function.update (F.pc s) t q) (ctx : F.ctx s' = F.ctx s)
    (contexts : F.contexts s' = F.contexts s) (registered : ∀ p, F.registered s' p = F.registered s p)
    (same : F.registered s q = F.registered s p) (awaiter : F.awaiter q = F.awaiter p ∨ F.awaiter q = none) :
    F.Goes s s' t site := by
  refine .of_update before pc ctx (fun _ _ => registered _) ?_ ?_ awaiter
  · rw [contexts,registered,same]
    exact .stays _ _
  · rw [contexts]
    exact .inl rfl

/-- An awaiter is constructed in the frame of `t`, at a free address. -/
theorem Goes.enters {self : Addr} {x : Ctx} (pc : F.pc s' = Function.update (F.pc s) t q)
    (ctx : F.ctx s' = Function.update (F.ctx s) self x) (contexts : F.contexts s' = F.contexts s)
    (apart : ∀ u a, F.awaiter (F.pc s u) = some a → a ≠ self)
    (registered : ∀ u, u ≠ t → F.registered s' (F.pc s u) = F.registered s (F.pc s u))
    (before : F.registered s (F.pc s t) = none) (after : F.registered s' q = none) (own : F.awaiter q = some self) :
    F.Goes s s' t (some x) where
  pc u other := by rw [pc,Function.update_of_ne other]
  ctx u _ a there := by rw [ctx,Function.update_of_ne (apart u a there)]
  registered := registered
  tracks := by
    rw [pc,Function.update_self,before,after,contexts]
    exact .stays _ _
  queue := .inl (congrArg Contexts.taskQueue contexts)
  place := by
    refine .inr (.inr ?_)
    rw [pc,Function.update_self,own,ctx]
    exact congrArg some (Function.update_self ..)

theorem Resumes.of_update {x : Ctx} {rest : List Coro} (front : (F.contexts s).taskQueue x = t::rest) (before : F.pc s t = p)
    (contexts : F.contexts s' = (F.contexts s).pop x rest) (pc : F.pc s' = Function.update (F.pc s) t q)
    (ctx : F.ctx s' = F.ctx s) (registered : ∀ p, F.registered s' p = F.registered s p)
    (same : F.registered s q = F.registered s p) (awaiter : F.awaiter q = F.awaiter p)
    (resumed : F.idle q = false ∧ F.suspended q = false) : F.Resumes s s' x t rest where
  front := front
  contexts := contexts
  pc u other := by rw [pc,Function.update_of_ne other]
  ctx := ctx
  awaiter := by rw [pc,Function.update_self,awaiter,before]
  registered u := by
    rw [registered,pc]
    by_cases mine : u = t
    · subst mine
      rw [Function.update_self,same,before]
    · rw [Function.update_of_ne mine]
  resumed := by rwa [pc,Function.update_self]

end

omit [DecidableEq Ctx] in
/-- `sleeps` is the place where a coroutine sleeps with its awaiter. -/
theorem queued_of {sleeps : Addr → F.Pc} {x : Ctx} (here : ∃ a, F.pc s t = sleeps a ∧ F.ctx s a = x)
    (suspended : ∀ a, F.suspended (sleeps a) = true) (awaiter : ∀ a, F.awaiter (sleeps a) = some a) :
    F.suspended (F.pc s t) = true ∧ ∃ a, F.awaiter (F.pc s t) = some a ∧ F.ctx s a = x := by
  obtain ⟨a,pc,here⟩ := here
  rw [pc]
  exact ⟨suspended a,a,awaiter a,here⟩

theorem Lawful.component (lawful : F.Lawful) : F.component.Lawful where
  fresh := lawful.fresh
  bare s t idle := by
    dsimp only [Frames.component]
    rw [lawful.bare _ idle]
    rfl
  home s _ x t registered := by
    obtain ⟨a,there,here⟩ := Option.map_eq_some_iff.mp registered
    exact Option.map_eq_some_iff.mpr ⟨a,lawful.within s _ a there,here⟩
  asleep s reachable t asleep := by
    obtain ⟨a,there⟩ := lawful.asleep s reachable t asleep
    exact ⟨F.ctx s a,Option.map_eq_some_iff.mpr ⟨a,there,rfl⟩⟩
  queued s reachable x t member := by
    obtain ⟨asleep,a,there,here⟩ := lawful.queued s reachable x t member
    exact ⟨asleep,Option.map_eq_some_iff.mpr ⟨a,there,here⟩⟩
  acts s s' a t reachable moved actor := (lawful.goes s s' a t reachable moved actor).acts lawful.within
  pops s s' x reachable moved := by
    obtain ⟨t,rest,resumes⟩ := lawful.resumes s s' x reachable moved
    exact ⟨t,rest,resumes.pops⟩

end Frames
end TinyCoro.Program
