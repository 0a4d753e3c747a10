import TinyCoro.Comp.Latch
import TinyCoro.Program.EventFrames

/-! The latch as a component: its waits are those of its event. -/
namespace TinyCoro.Latch
open Library Program

variable (Coro Ctx : Type) [DecidableEq Coro] [DecidableEq Ctx]

def frames : Frames Coro Ctx where
  State := State Coro Ctx
  Action := Action Coro Ctx
  Pc := Event.Pc
  machine := machine Coro Ctx
  contexts s := s.ev.contexts
  ctx s := s.ev.ctx
  pc s := s.ev.pc
  actor
    | .wait t _ _ | .countDown t | .step t | .spurious t => some t
    | .exec _ => none
  site
    | .wait _ _ x => some x
    | _ => none
  exec := .exec
  idle p := decide (p = .idle)
  suspended := Event.Pc.asleep
  awaiter := Event.Pc.awaiter
  registered _ := Event.Pc.registered

variable {Coro Ctx} {s s' : State Coro Ctx} {t : Coro}

private theorem goes_of_event {site : Option Ctx} (goes : (Event.frames Unit Coro Ctx).Goes s.ev s'.ev t site) :
    (frames Coro Ctx).Goes s s' t site :=
  ⟨goes.pc,goes.ctx,goes.registered,goes.tracks,goes.queue,goes.place⟩

private theorem goes_event {a : Event.Action Unit Coro Ctx} (linked : Event.Linked s.ev) (moved : s.event a = some s')
    (actor : (Event.frames Unit Coro Ctx).actor a = some t) :
    (frames Coro Ctx).Goes s s' t ((Event.frames Unit Coro Ctx).site a) := by
  obtain ⟨ev,stepped,rfl⟩ := Option.map_eq_some_iff.mp moved
  exact goes_of_event (Event.goes_step linked stepped actor)

theorem goes_step {a : Action Coro Ctx} (linked : Event.Linked s.ev) (moved : step s a = some s')
    (actor : (frames Coro Ctx).actor a = some t) : (frames Coro Ctx).Goes s s' t ((frames Coro Ctx).site a) := by
  cases a with
  | wait u self x => exact goes_event (a := .wait u self x) linked moved actor
  | step u => exact goes_event (a := .step u) linked moved actor
  | spurious u => exact goes_event (a := .spurious u) linked moved actor
  | exec x => contradiction
  | countDown u =>
    cases Option.some.inj actor
    simp only [step] at moved
    split at moved
    next =>
      split at moved
      next =>
        obtain ⟨ev,stepped,rfl⟩ := Option.map_eq_some_iff.mp moved
        exact goes_of_event (Event.goes_step (a := .set t none) linked stepped rfl)
      next =>
        obtain rfl := Option.some.inj moved
        exact goes_of_event (.of_quiet rfl (Function.update_eq_self ..).symm rfl rfl (fun _ => rfl) rfl (.inl rfl))
    next => contradiction

theorem frames_lawful : (frames Coro Ctx).Lawful := by
  have event : (Event.frames Unit Coro Ctx).Lawful := Event.frames_lawful
  constructor
  case fresh => exact fun s fresh => event.fresh s.ev fresh.1
  case bare => exact event.bare
  case within => exact fun s => event.within s.ev
  case asleep => exact fun s reachable => event.asleep s.ev (reachable_event s reachable)
  case queued => exact fun s reachable => event.queued s.ev (reachable_event s reachable)
  case goes =>
    intro s s' a t reachable moved actor
    exact goes_step (Event.reachable_linked s.ev (reachable_event s reachable)) moved actor
  case resumes =>
    intro s s' x _ moved
    obtain ⟨ev,stepped,rfl⟩ := Option.map_eq_some_iff.mp moved
    obtain ⟨t,rest,resumes⟩ := Event.resumes_exec stepped
    exact ⟨t,rest,resumes.front,resumes.contexts,resumes.pc,resumes.ctx,resumes.awaiter,resumes.registered,resumes.resumed⟩

end TinyCoro.Latch
