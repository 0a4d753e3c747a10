import TinyCoro.Comp.CondVarWaiters
import TinyCoro.Program.Frames

/-! The mutex with its condition variables as a component. A `mutex_awaiter`
registers in `await_suspend`; a `cv_awaiter` when it enters the list for the first
time, and no more when another thread puts it there again. -/
namespace TinyCoro.Mutex
open Library Program

def Pc.asleep {Cv : Type} : Pc Cv → Bool
  | .suspended _ => true
  | _ => false

def Pc.starting {Cv : Type} : Pc Cv → Bool
  | .registerWait _ => true
  | _ => false

def Pc.resting {Cv : Type} : Pc Cv → Bool
  | .idle => true
  | _ => false

@[simp] theorem finish_starting {Cv : Type} (f : Frame Cv) : f.finish.starting = false := by
  induction f with
  | resume _ _ ih => exact ih
  | _ => rfl

/-- `register_wait` has run for the awaiter of `await_suspend`. -/
def State.counts {Coro Ctx Cv Shared : Type} (s : State Coro Ctx Cv Shared) (a : Addr) : Bool :=
  match s.kind a with
  | .lock => true
  | .wait _ _ => s.suspendState a

/-- The awaiter in the frame of the coroutine between its `register_wait` and
its `unregister_wait`. -/
def State.registeredAt {Coro Ctx Cv Shared : Type} (s : State Coro Ctx Cv Shared) (p : Pc Cv) : Option Addr :=
  if p.starting then none else p.self.filter s.counts

variable (Coro Ctx Cv Shared : Type) [DecidableEq Coro] [DecidableEq Ctx] [DecidableEq Cv]

def frames : Frames Coro Ctx where
  State := State Coro Ctx Cv Shared
  Action := Action Coro Ctx Cv Shared
  Pc := Pc Cv
  machine := machine Coro Ctx Cv Shared
  contexts := State.contexts
  ctx := State.ctx
  pc := State.pc
  actor
    | .lock t _ _ | .tryLock t | .unlock t | .wait t _ _ _ _ | .notifyOne t _ | .notifyAll t _ | .modify t _
    | .step t | .spurious t => some t
    | .exec _ => none
  site
    | .lock _ _ x | .wait _ _ x _ _ => some x
    | _ => none
  exec := .exec
  idle := Pc.resting
  suspended := Pc.asleep
  awaiter := Pc.self
  registered := State.registeredAt

variable {Coro Ctx Cv Shared} {s s' : State Coro Ctx Cv Shared} {h : Holder Coro} {g : Lists Coro Cv} {t : Coro}

omit [DecidableEq Coro] [DecidableEq Ctx] [DecidableEq Cv] in
private theorem registeredAt_congr {p q : Pc Cv} (starting : p.starting = q.starting) (self : p.self = q.self)
    (counts : ∀ a, q.self = some a → s'.counts a = s.counts a) : s'.registeredAt p = s.registeredAt q := by
  rw [State.registeredAt,State.registeredAt,starting,self]
  cases there : q.self with
  | none => rfl
  | some a => rw [Option.filter_some,Option.filter_some,counts a there]

omit [DecidableEq Coro] [DecidableEq Ctx] [DecidableEq Cv] in
private theorem counts_congr (kind : s'.kind = s.kind) (suspendState : s'.suspendState = s.suspendState) (a : Addr) :
    s'.counts a = s.counts a := by
  rw [State.counts,State.counts,kind,suspendState]

private theorem goes_quietly {p q : Pc Cv} {site : Option Ctx} (before : s.pc t = p) (pc : s'.pc = Function.update s.pc t q)
    (ctx : s'.ctx = s.ctx) (contexts : s'.contexts = s.contexts) (kind : s'.kind = s.kind)
    (suspendState : s'.suspendState = s.suspendState) (starting : q.starting = p.starting) (self : q.self = p.self) :
    (frames Coro Ctx Cv Shared).Goes s s' t site := by
  have counts := counts_congr kind suspendState
  refine .of_quiet before pc ctx contexts (fun _ => registeredAt_congr rfl rfl fun a _ => counts a) ?_ (.inl self)
  exact registeredAt_congr starting self fun _ _ => rfl

omit [DecidableEq Coro] [DecidableEq Ctx] [DecidableEq Cv] in
private theorem registeredAt_of_self {p : Pc Cv} {a : Addr} (starting : p.starting = false) (self : p.self = some a) :
    s.registeredAt p = if s.counts a then some a else none := by
  rw [State.registeredAt,starting,self]
  simp [Option.filter_some]

private theorem goes_registerWait {site : Option Ctx} (inv : Invariant s h g) {self : Addr} (pc : s.pc t = .registerWait self)
    (moved : advance s t = some s') : (frames Coro Ctx Cv Shared).Goes s s' t site := by
  have counts : s.counts self = true := by
    rw [State.counts,inv.suspending.plain t self (by rw [pc]; rfl)]
  simp only [Mutex.advance,pc,Option.some.injEq] at moved
  subst moved
  refine .of_update pc rfl rfl (fun _ _ => rfl) ?_ (.inl rfl) (.inl rfl)
  have after : s.registeredAt (.loadState self none) = some self := by
    rw [registeredAt_of_self rfl rfl,counts]
    rfl
  have same : State.registeredAt { s.goto t (.loadState self none) with
      contexts := s.contexts.registerWait (s.ctx self) 1 } (.loadState self none) = some self := after
  dsimp only [frames]
  rw [same]
  exact .joins (s.ctx self) _

private theorem goes_awaitResume {site : Option Ctx} {self : Addr} (pc : s.pc t = .awaitResume self)
    (moved : advance s t = some s') : (frames Coro Ctx Cv Shared).Goes s s' t site := by
  have before : s.registeredAt (.awaitResume self) = if s.counts self then some self else none :=
    registeredAt_of_self rfl rfl
  have registered : s.registered self = if s.counts self then 1 else 0 := by
    rw [State.registered,State.counts]
    cases s.kind self with
    | _ => rfl
  simp only [Mutex.advance,pc,Option.some.injEq] at moved
  subst moved
  refine .of_update pc rfl rfl (fun _ _ => rfl) ?_ (.inl rfl) (.inr rfl)
  dsimp only [frames]
  rw [before,registered]
  split
  next => exact .leaves (s.ctx self) _
  next =>
    have same : (s.contexts.unregisterWait (s.ctx self) 0).numWaitTask = s.contexts.numWaitTask := by
      simp [Contexts.unregisterWait]
    rw [same]
    exact .stays _ _

private theorem goes_submitTask {site : Option Ctx} {self : Addr} {caller : Frame Cv} (pc : s.pc t = .submitTask self caller)
    (moved : advance s t = some s') : (frames Coro Ctx Cv Shared).Goes s s' t site := by
  simp only [Mutex.advance,pc,Option.some.injEq] at moved
  subst moved
  refine .of_update pc rfl rfl (fun _ _ => rfl) ?_ (.inr ⟨_,_,rfl⟩) (.inl (finish_self caller))
  have same : s.registeredAt caller.finish = s.registeredAt (.submitTask self caller) :=
    registeredAt_congr (finish_starting caller) (finish_self caller) fun _ _ => rfl
  dsimp only [frames]
  rw [← same]
  exact .stays _ _

omit [DecidableEq Coro] [DecidableEq Ctx] [DecidableEq Cv] in
theorem Invariant.hand (inv : Invariant s h g) {a : Addr} (entering : (s.pc t).entering = true) (self : (s.pc t).self = some a) :
    (s.pc t).hand = some a := by
  have registering := inv.tracked.placed.registering t
  cases pc : s.pc t with
  | cvAwaitSuspend | awaitResume => simpa [pc,Pc.self,Pc.hand] using self
  | cvRegisterWait b cv caller =>
    cases caller with
    | awaitSuspend c =>
      obtain ⟨_,own | ⟨outer,again⟩⟩ := registering b cv (.awaitSuspend c) (by rw [pc]; rfl)
      · obtain rfl := Frame.awaitSuspend.inj own
        simpa [pc,Pc.self,Pc.frame,Frame.self,Pc.hand] using self
      · contradiction
    | _ => simp [pc,Pc.entering] at entering
  | _ => simp [pc,Pc.entering] at entering

omit [DecidableEq Coro] [DecidableEq Ctx] [DecidableEq Cv] in
theorem Invariant.first (inv : Invariant s h g) {self : Addr} {cv : Cv} {caller : Frame Cv}
    (pc : s.pc t = .cvRegisterWait self cv caller) (fresh : s.suspendState self = false) : caller = .awaitSuspend self := by
  obtain ⟨⟨cond,kind⟩,own | ⟨outer,again⟩⟩ := inv.tracked.placed.registering t self cv caller (by rw [pc]; rfl)
  · exact own
  subst again
  have placed := inv.tracked.placed
  have live := placed.behalf t self outer (by rw [pc]; rfl) (by rw [pc]; rfl)
  have there := placed.self self live
  have slow := inv.suspending.slow _ self there
  cases entering : (s.pc (s.awaitCoro self)).entering with
  | false => simp [slow entering (by simp [kind])] at fresh
  | true =>
    have theirs := (placed.hand _ self).mp (inv.hand entering there)
    have mine := (placed.hand t self).mp (by rw [pc]; rfl)
    rw [← Place.hand.inj (mine.symm.trans theirs),pc] at entering
    contradiction

/-- A `cv_awaiter` that has suspended before is put into the list again. -/
theorem goes_again {site : Option Ctx} {self : Addr} {cv : Cv} {caller : Frame Cv} (pc : s.pc t = .cvRegisterWait self cv caller)
    (slow : s.suspendState self = true) (moved : advance s t = some s') : (frames Coro Ctx Cv Shared).Goes s s' t site := by
  simp only [Mutex.advance,pc,Option.some.injEq,slow,if_true] at moved
  have suspendState : s'.suspendState = s.suspendState := by
    rw [← moved]
    exact (congrArg (Function.update s.suspendState self) slow.symm).trans (Function.update_eq_self ..)
  have kind : s'.kind = s.kind := by rw [← moved]; rfl
  have counts := counts_congr kind suspendState
  have same : s'.registeredAt (.cvLock self cv caller) = s.registeredAt (.cvRegisterWait self cv caller) :=
    registeredAt_congr rfl rfl fun a _ => counts a
  have numWaitTask : s'.contexts.numWaitTask = s.contexts.numWaitTask := by
    rw [← moved]
    simp [Contexts.registerWait]
  have went : s'.pc = Function.update s.pc t (.cvLock self cv caller) := by rw [← moved]; rfl
  refine .of_update pc went (by rw [← moved]; rfl) ?_ ?_ (.inl (by rw [← moved]; rfl)) (.inl rfl)
  · exact fun _ _ => registeredAt_congr rfl rfl fun a _ => counts a
  · dsimp only [frames]
    rw [same,numWaitTask]
    exact .stays _ _

private theorem goes_first {site : Option Ctx} (inv : Invariant s h g) {self : Addr} {cv : Cv} {caller : Frame Cv}
    (pc : s.pc t = .cvRegisterWait self cv caller) (fresh : s.suspendState self = false) (moved : advance s t = some s') :
    (frames Coro Ctx Cv Shared).Goes s s' t site := by
  obtain ⟨⟨cond,kind⟩,_⟩ := inv.tracked.placed.registering t self cv caller (by rw [pc]; rfl)
  obtain rfl := inv.first pc fresh
  have mine := (inv.tracked.placed.live t self (by rw [pc]; rfl)).2
  simp only [Mutex.advance,pc,Option.some.injEq,fresh] at moved
  have others : ∀ a, a ≠ self → s'.counts a = s.counts a := by
    intro a other
    rw [← moved,State.counts,State.counts]
    dsimp only
    rw [Function.update_of_ne other]
    rfl
  have before : s.registeredAt (.cvRegisterWait self cv (.awaitSuspend self)) = none := by
    have counts : s.counts self = false := by rw [State.counts,kind,fresh]
    rw [registeredAt_of_self rfl rfl,counts]
    rfl
  have after : s'.registeredAt (.cvLock self cv (.awaitSuspend self)) = some self := by
    have counts : s'.counts self = true := by
      rw [← moved,State.counts]
      dsimp only [State.goto]
      rw [kind]
      exact Function.update_self ..
    rw [registeredAt_of_self rfl rfl,counts]
    rfl
  have numWaitTask : s'.contexts.numWaitTask = (s.contexts.registerWait (s.ctx self) 1).numWaitTask := by
    rw [← moved]
    rfl
  have went : s'.pc = Function.update s.pc t (.cvLock self cv (.awaitSuspend self)) := by rw [← moved]; rfl
  refine .of_update pc went (by rw [← moved]; rfl) ?_ ?_ (.inl (by rw [← moved]; rfl)) (.inl rfl)
  · refine fun u other => registeredAt_congr rfl rfl fun a there => others a ?_
    rintro rfl
    exact other ((inv.tracked.placed.live u a there).2.symm.trans mine)
  · dsimp only [frames]
    rw [before,after,numWaitTask]
    exact .joins (s.ctx self) _

theorem goes_advance {site : Option Ctx} (inv : Invariant s h g) (moved : advance s t = some s') (alive : s'.pc t ≠ .aborted) :
    (frames Coro Ctx Cv Shared).Goes s s' t site := by
  cases pc : s.pc t with
  | idle | suspended self | aborted => simp [Mutex.advance,pc] at moved
  | registerWait self => exact goes_registerWait inv pc moved
  | awaitResume self => exact goes_awaitResume pc moved
  | submitTask self caller => exact goes_submitTask pc moved
  | cvRegisterWait self cv caller =>
    cases slow : s.suspendState self with
    | false => exact goes_first inv pc slow moved
    | true => exact goes_again pc slow moved
  | loadState self waker =>
    simp only [Mutex.advance,pc,Option.some.injEq] at moved
    subst moved
    cases waker with
    | _ => exact goes_quietly pc rfl rfl rfl rfl rfl rfl rfl
  | compareExchange self state waker =>
    simp only [Mutex.advance,pc] at moved
    split at moved
    next =>
      split at moved
      all_goals
        cases moved
        cases waker with
        | none => exact goes_quietly pc rfl rfl rfl rfl rfl rfl rfl
        | some caller =>
          first
          | exact goes_quietly pc rfl rfl rfl rfl rfl rfl rfl
          | exact goes_quietly pc rfl rfl rfl rfl rfl (finish_starting caller) (finish_self caller)
    next =>
      cases moved
      cases waker with
      | _ => exact goes_quietly pc rfl rfl rfl rfl rfl rfl rfl
  | unlock caller =>
    simp only [Mutex.advance,pc,Option.some.injEq] at moved
    subst moved
    have held : s.state ≠ .nolocked := by
      intro free
      exact alive (by simp [State.goto,free])
    rw [if_neg held]
    exact goes_quietly pc rfl rfl rfl rfl rfl rfl rfl
  | unlockExchange caller =>
    simp only [Mutex.advance,pc] at moved
    split at moved
    next =>
      cases moved
      exact goes_quietly pc rfl rfl rfl rfl rfl rfl rfl
    next =>
      cases moved
      exact absurd (Function.update_self ..) alive
  | unlockCompareExchange caller =>
    simp only [Mutex.advance,pc] at moved
    split at moved
    next =>
      cases moved
      exact goes_quietly pc rfl rfl rfl rfl rfl (finish_starting caller) (finish_self caller)
    next =>
      cases moved
      exact goes_quietly pc rfl rfl rfl rfl rfl rfl rfl
  | unlockReverse awaiter toResume caller =>
    simp only [Mutex.advance,pc,Option.some.injEq] at moved
    subst moved
    cases next : s.next awaiter with
    | _ => exact goes_quietly pc rfl rfl rfl rfl rfl rfl rfl
  | cvAwaitSuspend self =>
    simp only [Mutex.advance,pc] at moved
    split at moved
    next => contradiction
    next =>
      cases moved
      refine goes_quietly pc rfl rfl rfl rfl rfl ?_ ?_
      · split <;> rfl
      · split <;> rfl
  | resume self caller =>
    simp only [Mutex.advance,pc] at moved
    split at moved
    next =>
      cases moved
      exact goes_quietly pc rfl rfl rfl rfl rfl rfl rfl
    next =>
      cases moved
      refine goes_quietly pc rfl rfl rfl rfl rfl ?_ ?_
      · split <;> rfl
      · split <;> rfl
  | oneUnlock cv cur =>
    simp only [Mutex.advance,pc,Option.some.injEq] at moved
    subst moved
    cases cur with
    | _ => exact goes_quietly pc rfl rfl rfl rfl rfl rfl rfl
  | allLoop cv curHead =>
    cases curHead with
    | _ =>
      simp only [Mutex.advance,pc,Option.some.injEq] at moved
      subst moved
      exact goes_quietly pc rfl rfl rfl rfl rfl rfl rfl
  | _ =>
    simp only [Mutex.advance,pc] at moved
    repeat' split at moved
    all_goals cases moved
    all_goals exact goes_quietly pc rfl rfl rfl rfl rfl rfl rfl

private theorem goes_construct (inv : Invariant s h g) {q : Pc Cv} {self : Addr} {x : Ctx} (idle : s.pc t = .idle)
    (free : s.live self = false) (pc : s'.pc = Function.update s.pc t q) (ctx : s'.ctx = Function.update s.ctx self x)
    (others : ∀ a, a ≠ self → s'.counts a = s.counts a) (contexts : s'.contexts = s.contexts) (own : q.self = some self)
    (unregistered : s'.registeredAt q = none) : (frames Coro Ctx Cv Shared).Goes s s' t (some x) := by
  have apart : ∀ u a, (s.pc u).self = some a → a ≠ self := by
    rintro u a there rfl
    have live := (inv.tracked.placed.live u a there).1
    simp [free] at live
  refine .enters pc ctx contexts apart ?_ (congrArg s.registeredAt idle) unregistered own
  exact fun u _ => registeredAt_congr rfl rfl fun a there => others a (apart u a there)

theorem goes_step {a : Action Coro Ctx Cv Shared} (inv : Invariant s h g) (moved : step s a = some s')
    (actor : (frames Coro Ctx Cv Shared).actor a = some t) (alive : s'.pc t ≠ .aborted) :
    (frames Coro Ctx Cv Shared).Goes s s' t ((frames Coro Ctx Cv Shared).site a) := by
  cases a with
  | step u =>
    cases Option.some.inj actor
    exact goes_advance inv moved alive
  | exec x => contradiction
  | lock u self x =>
    cases Option.some.inj actor
    simp only [Mutex.step] at moved
    split at moved
    next idle =>
      split at moved
      next => contradiction
      next free =>
        cases moved
        refine goes_construct inv idle (by simpa using free) rfl rfl ?_ rfl rfl rfl
        intro a other
        simp [State.counts,State.construct,State.goto,other]
    next => contradiction
  | wait u self x cv cond =>
    cases Option.some.inj actor
    simp only [Mutex.step] at moved
    split at moved
    next idle =>
      split at moved
      next free =>
        cases moved
        refine goes_construct inv idle free.2 rfl rfl ?_ rfl rfl ?_
        · intro a other
          simp [State.counts,State.construct,State.goto,other]
        · rw [registeredAt_of_self rfl rfl]
          simp [State.counts,State.construct,State.goto]
      next => contradiction
    next => contradiction
  | tryLock u =>
    cases Option.some.inj actor
    simp only [Mutex.step] at moved
    split at moved
    next =>
      split at moved
      all_goals
        cases moved
        exact goes_quietly rfl (Function.update_eq_self ..).symm rfl rfl rfl rfl rfl rfl
    next => contradiction
  | modify u shared =>
    cases Option.some.inj actor
    simp only [Mutex.step] at moved
    split at moved
    next =>
      split at moved
      next =>
        cases moved
        exact goes_quietly rfl (Function.update_eq_self ..).symm rfl rfl rfl rfl rfl rfl
      next => contradiction
    next => contradiction
  | unlock u =>
    cases Option.some.inj actor
    simp only [Mutex.step] at moved
    split at moved
    next idle =>
      split at moved
      next =>
        cases moved
        exact goes_quietly idle rfl rfl rfl rfl rfl rfl rfl
      next => contradiction
    next => contradiction
  | notifyOne u cv | notifyAll u cv =>
    cases Option.some.inj actor
    simp only [Mutex.step] at moved
    split at moved
    next idle =>
      cases moved
      exact goes_quietly idle rfl rfl rfl rfl rfl rfl rfl
    next => contradiction
  | spurious u =>
    cases Option.some.inj actor
    simp only [Mutex.step] at moved
    split at moved
    next self state waker pc =>
      cases moved
      cases waker with
      | _ => exact goes_quietly pc rfl rfl rfl rfl rfl rfl rfl
    next => contradiction

theorem resumes_exec {x : Ctx} (moved : step s (.exec x) = some s') :
    ∃ t rest, (frames Coro Ctx Cv Shared).Resumes s s' x t rest := by
  simp only [Mutex.step] at moved
  split at moved
  next => contradiction
  next handle rest front =>
    split at moved
    next self pc =>
      cases moved
      exact ⟨handle,rest,.of_update front pc rfl rfl rfl (fun _ => rfl) rfl rfl ⟨rfl,rfl⟩⟩
    next => contradiction

omit [DecidableEq Coro] [DecidableEq Ctx] [DecidableEq Cv] in
theorem Invariant.queued (inv : Invariant s h g) {x : Ctx} (member : t ∈ s.contexts.taskQueue x) :
    ∃ a, s.pc t = .suspended a ∧ s.ctx a = x := by
  obtain ⟨a,place,rfl,owner⟩ := inv.tracked.placed.queued t x member
  exact ⟨a,(inv.tracked.placed.submitted a place).1,owner⟩

omit [DecidableEq Coro] [DecidableEq Ctx] [DecidableEq Cv] in
theorem Invariant.registers (inv : Invariant s h g) {a : Addr} (pc : s.pc t = .suspended a) : s.registeredAt (s.pc t) = some a := by
  have counts : s.counts a = true := by
    rw [State.counts]
    cases kind : s.kind a with
    | lock => rfl
    | wait cv cond => exact inv.suspending.slow t a (by rw [pc]; rfl) (by rw [pc]; rfl) (by simp [kind])
  rw [pc,registeredAt_of_self rfl rfl,counts]
  rfl

theorem frames_lawful : (frames Coro Ctx Cv Shared).Lawful where
  fresh s fresh := by
    obtain ⟨_,_,_,_,_,_,pc,_,queue,_⟩ := fresh
    refine ⟨fun t => ?_,queue⟩
    dsimp only [frames]
    rw [pc]
    rfl
  bare p idle := by
    cases p with
    | idle => rfl
    | _ => contradiction
  within s p a registered := by
    dsimp only [frames,State.registeredAt] at registered ⊢
    split at registered
    next => contradiction
    next => exact (Option.filter_eq_some_iff.mp registered).1
  asleep s reachable t asleep := by
    obtain ⟨h,g,inv⟩ := reachable_invariant s reachable
    cases pc : s.pc t with
    | suspended a => exact ⟨a,inv.registers pc⟩
    | _ => simp [frames,pc,Pc.asleep] at asleep
  queued s reachable x t member := by
    obtain ⟨h,g,inv⟩ := reachable_invariant s reachable
    exact Frames.queued_of (inv.queued member) (fun _ => rfl) fun _ => rfl
  goes s s' a t reachable moved actor := by
    obtain ⟨h,g,inv⟩ := reachable_invariant s reachable
    have owned := (inv.step moved).owned
    exact goes_step inv moved actor fun aborted => (owned.exchanging t (by rw [aborted]; rfl)).1 aborted
  resumes _ _ _ _ moved := resumes_exec moved

end TinyCoro.Mutex
