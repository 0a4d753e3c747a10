import TinyCoro.Comp.EventSet
import TinyCoro.Program.Frames

/-! The event as a component: `await_ready` registers the wait, whether it will
suspend or not. -/
namespace TinyCoro.Event
open Library Program

def Pc.registered : Pc → Option Addr
  | .isSet a | .loadState a | .compareExchange a _ | .suspended a | .awaitResume a => some a
  | _ => none

def Pc.asleep : Pc → Bool
  | .suspended _ => true
  | _ => false

variable (V Coro Ctx : Type) [DecidableEq Coro] [DecidableEq Ctx]

def frames : Frames Coro Ctx where
  State := State V Coro Ctx
  Action := Action V Coro Ctx
  Pc := Pc
  machine := machine V Coro Ctx
  contexts := State.contexts
  ctx := State.ctx
  pc := State.pc
  actor
    | .wait t _ _ | .set t _ | .step t | .spurious t => some t
    | .exec _ => none
  site
    | .wait _ _ x => some x
    | _ => none
  exec := .exec
  idle p := decide (p = .idle)
  suspended := Pc.asleep
  awaiter := Pc.awaiter
  registered _ := Pc.registered

variable {V Coro Ctx} {s s' : State V Coro Ctx} {t : Coro}

theorem goes_advance {site : Option Ctx} (moved : advance s t = some s') : (frames V Coro Ctx).Goes s s' t site := by
  cases pc : s.pc t with
  | idle | suspended a => simp [Event.advance,pc] at moved
  | registerWait a =>
    simp only [Event.advance,pc,Option.some.injEq] at moved
    subst moved
    exact .of_update pc rfl rfl (fun _ _ => rfl) (.joins (s.ctx a) _) (.inl rfl) (.inl rfl)
  | awaitResume a =>
    simp only [Event.advance,pc,Option.some.injEq] at moved
    subst moved
    exact .of_update pc rfl rfl (fun _ _ => rfl) (.leaves (s.ctx a) _) (.inl rfl) (.inr rfl)
  | resume cur next =>
    simp only [Event.advance,pc,Option.some.injEq] at moved
    subst moved
    exact .of_update pc rfl rfl (fun _ _ => rfl) (.stays _ _) (.inr ⟨_,_,rfl⟩) (.inr rfl)
  | isSet a =>
    simp only [Event.advance,pc,Option.some.injEq] at moved
    subst moved
    refine .of_quiet pc rfl rfl rfl (fun _ => rfl) ?_ (.inl ?_)
    · split <;> rfl
    · split <;> rfl
  | loadState a | compareExchange a oldValue | exchange =>
    simp only [Event.advance,pc] at moved
    split at moved
    all_goals
      cases moved
      exact .of_quiet pc rfl rfl rfl (fun _ => rfl) rfl (.inl rfl)
  | drain waiter =>
    cases waiter with
    | _ =>
      simp only [Event.advance,pc,Option.some.injEq] at moved
      subst moved
      exact .of_quiet pc rfl rfl rfl (fun _ => rfl) rfl (.inr rfl)

theorem goes_step {a : Action V Coro Ctx} (linked : Linked s) (moved : step s a = some s')
    (actor : (frames V Coro Ctx).actor a = some t) : (frames V Coro Ctx).Goes s s' t ((frames V Coro Ctx).site a) := by
  cases a with
  | step u =>
    cases Option.some.inj actor
    exact goes_advance moved
  | exec x => contradiction
  | wait u self x =>
    cases Option.some.inj actor
    simp only [Event.step] at moved
    split at moved
    next free =>
      cases moved
      refine .enters rfl rfl rfl ?_ (fun _ _ => rfl) (congrArg Pc.registered free.1) rfl rfl
      rintro v a there rfl
      simp [linked.live there] at free
    next => contradiction
  | set u value =>
    cases Option.some.inj actor
    simp only [Event.step] at moved
    split at moved
    next idle =>
      cases moved
      exact .of_quiet idle rfl rfl rfl (fun _ => rfl) rfl (.inr rfl)
    next => contradiction
  | spurious u =>
    cases Option.some.inj actor
    simp only [Event.step] at moved
    split at moved
    next self oldValue pc =>
      cases moved
      exact .of_quiet pc rfl rfl rfl (fun _ => rfl) rfl (.inl rfl)
    next => contradiction

theorem resumes_exec {x : Ctx} (moved : step s (.exec x) = some s') :
    ∃ t rest, (frames V Coro Ctx).Resumes s s' x t rest := by
  simp only [Event.step] at moved
  split at moved
  next => contradiction
  next handle rest front =>
    split at moved
    next self pc =>
      cases moved
      exact ⟨handle,rest,.of_update front pc rfl rfl rfl (fun _ => rfl) rfl rfl ⟨rfl,rfl⟩⟩
    next => contradiction

theorem frames_lawful : (frames V Coro Ctx).Lawful where
  fresh s fresh := by
    obtain ⟨_,_,_,pc,queue,_⟩ := fresh
    exact ⟨fun t => by simp [frames,pc],queue⟩
  bare p idle := by
    obtain rfl : p = .idle := by simpa [frames] using idle
    rfl
  within _ p a registered := by
    cases p <;> simp_all [frames,Pc.registered,Pc.awaiter]
  asleep s _ t asleep := by
    cases pc : s.pc t with
    | suspended a => exact ⟨a,by simp [frames,pc,Pc.registered]⟩
    | _ => simp [frames,pc,Pc.asleep] at asleep
  queued s reachable x t member :=
    Frames.queued_of ((reachable_linked s reachable).queued member) (fun _ => rfl) fun _ => rfl
  goes s _ _ _ reachable moved actor := goes_step (reachable_linked s reachable) moved actor
  resumes _ _ _ _ moved := resumes_exec moved

end TinyCoro.Event
