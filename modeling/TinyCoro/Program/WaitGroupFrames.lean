import TinyCoro.Comp.WaitGroupDrain
import TinyCoro.Program.Frames

/-! The wait group as a component: `await_suspend` registers the wait first. -/
namespace TinyCoro.WaitGroup
open Library Program

def Pc.registered : Pc → Option Addr
  | .loadCount a | .loadState a | .compareExchange a _ | .suspended a | .awaitResume a => some a
  | _ => none

def Pc.asleep : Pc → Bool
  | .suspended _ => true
  | _ => false

variable (Coro Ctx : Type) [DecidableEq Coro] [DecidableEq Ctx]

def frames : Frames Coro Ctx where
  State := State Coro Ctx
  Action := Action Coro Ctx
  Pc := Pc
  machine := machine Coro Ctx
  contexts := State.contexts
  ctx := State.ctx
  pc := State.pc
  actor
    | .wait t _ _ | .add t _ | .done t | .step t | .spurious t => some t
    | .exec _ => none
  site
    | .wait _ _ x => some x
    | _ => none
  exec := .exec
  idle p := decide (p = .idle)
  suspended := Pc.asleep
  awaiter := Pc.awaiter
  registered _ := Pc.registered

variable {Coro Ctx} {s s' : State Coro Ctx} {t : Coro}

theorem goes_advance {site : Option Ctx} (moved : advance s t = some s') : (frames Coro Ctx).Goes s s' t site := by
  cases pc : s.pc t with
  | idle | suspended a => simp [WaitGroup.advance,pc] at moved
  | registerWait a =>
    simp only [WaitGroup.advance,pc,Option.some.injEq] at moved
    subst moved
    exact .of_update pc rfl rfl (fun _ _ => rfl) (.joins (s.ctx a) _) (.inl rfl) (.inl rfl)
  | awaitResume a =>
    simp only [WaitGroup.advance,pc,Option.some.injEq] at moved
    subst moved
    exact .of_update pc rfl rfl (fun _ _ => rfl) (.leaves (s.ctx a) _) (.inl rfl) (.inr rfl)
  | resume head next =>
    simp only [WaitGroup.advance,pc,Option.some.injEq] at moved
    subst moved
    exact .of_update pc rfl rfl (fun _ _ => rfl) (.stays _ _) (.inr ⟨_,_,rfl⟩) (.inr rfl)
  | loadCount a | compareExchange a head =>
    simp only [WaitGroup.advance,pc] at moved
    split at moved
    all_goals
      cases moved
      exact .of_quiet pc rfl rfl rfl (fun _ => rfl) rfl (.inl rfl)
  | loadState a | exchange =>
    simp only [WaitGroup.advance,pc,Option.some.injEq] at moved
    subst moved
    exact .of_quiet pc rfl rfl rfl (fun _ => rfl) rfl (.inl rfl)
  | drain head =>
    cases head with
    | _ =>
      simp only [WaitGroup.advance,pc,Option.some.injEq] at moved
      subst moved
      exact .of_quiet pc rfl rfl rfl (fun _ => rfl) rfl (.inr rfl)

theorem goes_step {a : Action Coro Ctx} (linked : Linked s) (moved : step s a = some s')
    (actor : (frames Coro Ctx).actor a = some t) : (frames Coro Ctx).Goes s s' t ((frames Coro Ctx).site a) := by
  cases a with
  | step u =>
    cases Option.some.inj actor
    exact goes_advance moved
  | exec x => contradiction
  | wait u self x =>
    cases Option.some.inj actor
    simp only [WaitGroup.step] at moved
    split at moved
    next free =>
      cases moved
      refine .enters rfl rfl rfl ?_ (fun _ _ => rfl) (congrArg Pc.registered free.1) rfl rfl
      rintro v a there rfl
      simp [linked.live there] at free
    next => contradiction
  | add u count =>
    cases Option.some.inj actor
    simp only [WaitGroup.step] at moved
    split at moved
    next idle =>
      cases moved
      exact .of_quiet rfl (Function.update_eq_self ..).symm rfl rfl (fun _ => rfl) rfl (.inl rfl)
    next => contradiction
  | done u =>
    cases Option.some.inj actor
    simp only [WaitGroup.step] at moved
    split at moved
    next idle =>
      cases moved
      refine .of_quiet idle rfl rfl rfl (fun _ => rfl) ?_ (.inr ?_)
      · split <;> rfl
      · split <;> rfl
    next => contradiction
  | spurious u =>
    cases Option.some.inj actor
    simp only [WaitGroup.step] at moved
    split at moved
    next self head pc =>
      cases moved
      exact .of_quiet pc rfl rfl rfl (fun _ => rfl) rfl (.inl rfl)
    next => contradiction

theorem resumes_exec {x : Ctx} (moved : step s (.exec x) = some s') :
    ∃ t rest, (frames Coro Ctx).Resumes s s' x t rest := by
  simp only [WaitGroup.step] at moved
  split at moved
  next => contradiction
  next handle rest front =>
    split at moved
    next self pc =>
      cases moved
      exact ⟨handle,rest,.of_update front pc rfl rfl rfl (fun _ => rfl) rfl rfl ⟨rfl,rfl⟩⟩
    next => contradiction

theorem frames_lawful : (frames Coro Ctx).Lawful where
  fresh s fresh := by
    obtain ⟨_,_,_,_,pc,queue,_⟩ := fresh
    exact ⟨fun t => by simp [frames,pc],queue⟩
  bare p idle := by
    obtain rfl : p = .idle := by simpa [frames] using idle
    rfl
  within _ p a registered := by
    cases p <;> simp_all [frames,Pc.registered,Pc.awaiter]
  asleep s _ t asleep := by
    cases pc : s.pc t with
    | suspended a => exact ⟨a,by simp [frames,pc,Pc.registered]⟩
    | _ => simp [frames,pc,Pc.asleep] at asleep
  queued s reachable x t member :=
    Frames.queued_of ((reachable_linked s reachable).queued member) (fun _ => rfl) fun _ => rfl
  goes s _ _ _ reachable moved actor := goes_step (reachable_linked s reachable) moved actor
  resumes _ _ _ _ moved := resumes_exec moved

end TinyCoro.WaitGroup
