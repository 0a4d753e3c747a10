import TinyCoro.Comp.CondVarWaiters

/-! A wait returns with the mutex owned and its predicate true: the predicates are
evaluated only while the mutex is held, and the shared state is not modified
before the coroutine has been given the mutex. -/
namespace TinyCoro.Mutex
open Library

/-- The awaiter whose coroutine is about to have the mutex. -/
def Pc.granted {Cv : Type} : Pc Cv → Option Addr
  | .submitTask self _ | .awaitResume self => some self
  | _ => none

@[simp] theorem finish_granted {Cv : Type} (f : Frame Cv) : f.finish.granted = none := by
  induction f with
  | resume _ _ ih => exact ih
  | _ => rfl

private theorem hand_of_granted {Cv : Type} {pc : Pc Cv} {a : Addr} (granted : pc.granted = some a) :
    pc.hand = some a ∧ pc.holding = true := by
  cases pc with
  | submitTask b caller | awaitResume b => exact ⟨granted,rfl⟩
  | _ => contradiction

variable {Coro Ctx Cv Shared : Type} [DecidableEq Coro] [DecidableEq Ctx] [DecidableEq Cv]

def State.refused (s : State Coro Ctx Cv Shared) (a : Addr) : Prop :=
  ∀ k p, s.kind a = .wait k (some p) → p s.shared = false

structure Ready (s : State Coro Ctx Cv Shared) (g : Lists Coro Cv) : Prop where
  granted : ∀ t a, (s.pc t).granted = some a → s.ready a = true
  submitted : ∀ a, g.place a = .submitted → s.ready a = true
  registering : ∀ t a k f, (s.pc t).registering = some (a,k,f) → s.refused a

section
variable {s s' : State Coro Ctx Cv Shared} {h : Holder Coro} {g g' : Lists Coro Cv} {t : Coro} {a : Addr}

omit [DecidableEq Coro] [DecidableEq Ctx] [DecidableEq Cv] in
theorem ready_lock (plain : s.kind a = .lock) : s.ready a = true := by
  rw [State.ready,plain]

omit [DecidableEq Coro] [DecidableEq Ctx] [DecidableEq Cv] in
private theorem ready_congr (kind : s'.kind a = s.kind a) (shared : s'.shared = s.shared) : s'.ready a = s.ready a := by
  rw [State.ready,State.ready,kind,shared]

omit [DecidableEq Coro] [DecidableEq Ctx] [DecidableEq Cv] in
theorem refused_congr (kind : s'.kind a = s.kind a) (shared : s'.shared = s.shared) (refused : s.refused a) : s'.refused a := by
  unfold State.refused
  rw [kind,shared]
  exact refused

omit [DecidableEq Coro] [DecidableEq Ctx] [DecidableEq Cv] in
private theorem refused_of_not_ready (unready : s.ready a ≠ true) : s.refused a := by
  intro k p kind
  rw [State.ready,kind] at unready
  simpa using unready

omit [DecidableEq Coro] [DecidableEq Ctx] [DecidableEq Cv] in
theorem fresh_ready (s : State Coro Ctx Cv Shared) (fresh : Fresh s) : Ready s (.initial : Lists Coro Cv) := by
  obtain ⟨_,_,_,_,_,_,pc,_⟩ := fresh
  constructor <;> simp [pc,Pc.granted,Pc.registering,Lists.initial]

omit [DecidableEq Ctx] in
private theorem Lists.after_submitted {act : Action Coro Ctx Cv Shared} (place : (g.after s act).place a = .submitted) :
    g.place a = .submitted ∨ ∃ t caller, act = .step t ∧ s.pc t = .submitTask a caller := by
  unfold Lists.after at place
  split at place
  next t =>
    split at place
    case h_5 self caller pc =>
      by_cases same : a = self
      · exact .inr ⟨t,caller,rfl,same ▸ pc⟩
      · exact .inl (by simpa [same] using place)
    all_goals repeat' split at place
    all_goals try dsimp only at place
    all_goals exact .inl (by grind [Function.update_apply])
  all_goals repeat' split at place
  all_goals exact .inl (by grind [Function.update_apply])

omit [DecidableEq Ctx] [DecidableEq Cv] in
theorem Ready.goto (ready : Ready s g) {p : Pc Cv} (places : ∀ a, g'.place a = .submitted → s.ready a = true)
    (pc : s'.pc = Function.update s.pc t p) (kind : s'.kind = s.kind) (shared : s'.shared = s.shared)
    (granted : ∀ a, p.granted = some a → s.ready a = true)
    (registering : ∀ a k f, p.registering = some (a,k,f) → s.refused a) : Ready s' g' := by
  have same : ∀ a, s'.ready a = s.ready a := fun a => ready_congr (congrFun kind a) shared
  refine ⟨?_,?_,?_⟩
  · intro u a here
    rw [same]
    by_cases mine : u = t
    · rw [mine,pc,Function.update_self] at here
      exact granted a here
    · rw [pc,Function.update_of_ne mine] at here
      exact ready.granted u a here
  · intro a place
    rw [same]
    exact places a place
  · intro u a k f here
    refine refused_congr (congrFun kind a) shared ?_
    by_cases mine : u = t
    · rw [mine,pc,Function.update_self] at here
      exact registering a k f here
    · rw [pc,Function.update_of_ne mine] at here
      exact ready.registering u a k f here

omit [DecidableEq Ctx] [DecidableEq Cv] in
theorem Ready.stay (ready : Ready s g) {p : Pc Cv} (places : ∀ a, g'.place a = .submitted → s.ready a = true)
    (pc : s'.pc = Function.update s.pc t p) (kind : s'.kind = s.kind) (shared : s'.shared = s.shared)
    (granted : p.granted = none) (registering : p.registering = none) : Ready s' g' := by
  refine ready.goto places pc kind shared ?_ ?_
  · intro a here; rw [granted] at here; contradiction
  · intro a k f here; rw [registering] at here; contradiction

omit [DecidableEq Ctx] in
theorem Ready.places (ready : Ready s g) (act : Action Coro Ctx Cv Shared) :
    ∀ a, (g.after s act).place a = .submitted → s.ready a = true := by
  intro a place
  rcases Lists.after_submitted place with before | ⟨t,caller,_,pc⟩
  · exact ready.submitted a before
  · exact ready.granted t a (by rw [pc]; rfl)

omit [DecidableEq Coro] [DecidableEq Ctx] [DecidableEq Cv] in
theorem Placed.live_of_registering {place : Addr → Place Coro Cv} (placed : Placed s place) {k : Cv} {f : Frame Cv}
    (registers : (s.pc t).registering = some (a,k,f)) : s.live a = true := by
  obtain ⟨frame,holding⟩ := frame_of_registering registers
  rcases (placed.registering t a k f registers).2 with rfl | ⟨f',rfl⟩
  · exact (placed.live t a (self_of_registering registers)).1
  · exact placed.behalf t a f' frame holding

omit [DecidableEq Coro] [DecidableEq Ctx] [DecidableEq Cv] in
/-- While a coroutine owns the mutex, no other is about to have it. -/
theorem Owned.ungranted (owned : Owned s h) (tracked : Tracked s g) (owns : s.owns t = true) :
    (∀ u, (s.pc u).holding = false) ∧ ∀ a, g.place a ≠ .submitted := by
  obtain ⟨rfl,outside⟩ := owned.owner t owns
  constructor
  · intro u
    by_contra holding
    cases owned.holds u (by simpa using holding)
    exact holding outside
  · intro a place
    obtain ⟨_,x,member⟩ := tracked.placed.submitted a place
    rw [owned.empty (by simp) x] at member
    contradiction

theorem Ready.advance (ready : Ready s g) (suspending : Suspending s) (moved : advance s t = some s') :
    Ready s' (g.after s (.step t)) := by
  cases pc : s.pc t with
  | idle | suspended self | aborted => simp [Mutex.advance,pc] at moved
  | compareExchange self state waker =>
    simp only [Mutex.advance,pc] at moved
    split at moved
    next =>
      cases state with
      | nolocked =>
        cases moved
        cases waker with
        | none =>
          have plain := suspending.plain t self (by rw [pc]; rfl)
          refine ready.goto (ready.places _) rfl rfl rfl ?_ (by simp [Pc.registering])
          rintro a ⟨⟩
          exact ready_lock plain
        | some caller => exact ready.stay (ready.places _) rfl rfl rfl rfl rfl
      | locked head =>
        cases moved
        refine ready.stay (ready.places _) rfl rfl rfl ?_ ?_
        all_goals cases waker with
          | none => rfl
          | some caller => first | exact finish_granted caller | exact finish_registering caller
    next => cases moved; exact ready.stay (ready.places _) rfl rfl rfl rfl rfl
  | resume self caller =>
    simp only [Mutex.advance,pc] at moved
    split at moved
    next plain =>
      cases moved
      refine ready.goto (ready.places _) rfl rfl rfl ?_ (by simp [Pc.registering])
      rintro a ⟨⟩
      exact ready_lock plain
    next cv cond kind =>
      cases moved
      split
      next holds =>
        refine ready.goto (ready.places _) rfl rfl rfl ?_ (by simp [Pc.registering])
        rintro a ⟨⟩
        exact holds
      next fails =>
        refine ready.goto (ready.places _) rfl rfl rfl (by simp [Pc.granted]) ?_
        rintro a k f ⟨⟩
        exact refused_of_not_ready fails
  | cvAwaitSuspend self =>
    simp only [Mutex.advance,pc] at moved
    split at moved
    next => contradiction
    next cv cond kind =>
      cases moved
      split
      next holds =>
        refine ready.goto (ready.places _) rfl rfl rfl ?_ (by simp [Pc.registering])
        rintro a ⟨⟩
        simp only [Bool.and_eq_true] at holds
        exact holds.2
      next fails =>
        refine ready.goto (ready.places _) rfl rfl rfl (by simp [Pc.granted]) ?_
        rintro a k f ⟨⟩ k' p kind'
        rw [kind] at kind'
        cases kind'
        exact refused_of_not_ready (by simpa using fails) _ p kind
  | cvRegisterWait self cv caller | cvLock self cv caller | cvLink self cv caller =>
    have refused := ready.registering t self cv caller (by rw [pc]; rfl)
    simp only [Mutex.advance,pc] at moved
    try split at moved
    all_goals cases moved
    all_goals refine ready.goto (ready.places _) rfl rfl rfl (by simp [Pc.granted]) ?_
    all_goals rintro a k f ⟨⟩
    all_goals exact refused
  | unlockReverse awaiter toResume caller =>
    simp only [Mutex.advance,pc,Option.some.injEq] at moved
    subst moved
    refine ready.stay (ready.places _) rfl rfl rfl ?_ ?_
    all_goals split <;> rfl
  | oneUnlock cv cur =>
    simp only [Mutex.advance,pc,Option.some.injEq] at moved
    subst moved
    refine ready.stay (ready.places _) rfl rfl rfl ?_ ?_
    all_goals cases cur <;> rfl
  | allLoop cv curHead =>
    cases curHead with
    | _ =>
      simp only [Mutex.advance,pc,Option.some.injEq] at moved
      subst moved
      exact ready.stay (ready.places _) rfl rfl rfl rfl rfl
  | _ =>
    simp only [Mutex.advance,pc] at moved
    repeat' split at moved
    all_goals cases moved
    all_goals refine ready.stay (ready.places _) rfl rfl rfl ?_ ?_
    all_goals first | rfl | exact finish_granted _ | exact finish_registering _

omit [DecidableEq Ctx] [DecidableEq Cv] in
theorem Ready.construct (ready : Ready s g) (placed : Placed s g.place) {self : Addr} {x : Ctx}
    {kind : Kind Cv Shared} {p : Pc Cv} {owns : Coro → Bool} (free : s.live self = false)
    (granted : p.granted = none) (registering : p.registering = none) :
    Ready { (s.construct t self x kind).goto t p with owns := owns }
      { g with place := Function.update g.place self (.hand t) } := by
  have kept : ∀ a, a ≠ self → (s.construct t self x kind).kind a = s.kind a := fun a other =>
    Function.update_of_ne other ..
  have handed : ∀ u a, (s.pc u).hand = some a → a ≠ self := by
    rintro u a here rfl
    rw [placed.live_of_hand here] at free
    contradiction
  refine ⟨?_,?_,?_⟩
  · intro u a here
    simp only [State.goto] at here
    by_cases mine : u = t
    · rw [mine,Function.update_self,granted] at here
      contradiction
    · rw [Function.update_of_ne mine] at here
      exact (ready_congr (kept a (handed u a (hand_of_granted here).1)) rfl).trans (ready.granted u a here)
  · intro a place
    by_cases same : a = self
    · simp [same] at place
    · simp only [Function.update_of_ne same] at place
      exact (ready_congr (kept a same) rfl).trans (ready.submitted a place)
  · intro u a k f here
    simp only [State.goto] at here
    by_cases mine : u = t
    · rw [mine,Function.update_self,registering] at here
      contradiction
    · rw [Function.update_of_ne mine] at here
      refine refused_congr (kept a ?_) rfl (ready.registering u a k f here)
      rintro rfl
      rw [placed.live_of_registering here] at free
      contradiction

theorem Ready.step {act : Action Coro Ctx Cv Shared} (ready : Ready s g) (owned : Owned s h) (tracked : Tracked s g)
    (suspending : Suspending s) (moved : step s act = some s') : Ready s' (g.after s act) := by
  cases act with
  | step t => exact ready.advance suspending moved
  | lock t self x =>
    simp only [Mutex.step] at moved
    split at moved
    next pc =>
      split at moved
      next => contradiction
      next free => cases moved; exact ready.construct tracked.placed (by simpa using free) rfl rfl
    next => contradiction
  | wait t self x cv cond =>
    simp only [Mutex.step] at moved
    split at moved
    next pc =>
      split at moved
      next free => cases moved; exact ready.construct tracked.placed free.2 rfl rfl
      next => contradiction
    next => contradiction
  | modify t shared =>
    simp only [Mutex.step] at moved
    split at moved
    next pc =>
      split at moved
      next owns =>
        cases moved
        obtain ⟨outside,unsubmitted⟩ := owned.ungranted tracked owns
        refine ⟨?_,?_,?_⟩
        · intro u a granted
          have holding := (hand_of_granted granted).2
          rw [outside] at holding
          contradiction
        · exact fun a place => absurd place (unsubmitted a)
        · intro u a k f registers
          have holding := (frame_of_registering registers).2
          rw [outside] at holding
          contradiction
      next => contradiction
    next => contradiction
  | tryLock t =>
    simp only [Mutex.step] at moved
    repeat' split at moved
    all_goals cases moved
    all_goals exact { ready with }
  | unlock t | notifyOne t cv | notifyAll t cv =>
    simp only [Mutex.step] at moved
    split at moved
    all_goals try split at moved
    all_goals cases moved
    all_goals exact ready.stay ready.submitted rfl rfl rfl rfl rfl
  | spurious t =>
    simp only [Mutex.step] at moved
    split at moved
    next self state waker pc => cases moved; exact ready.stay ready.submitted rfl rfl rfl rfl rfl
    next => contradiction
  | exec x =>
    have places := ready.places (.exec x)
    simp only [Mutex.step] at moved
    split at moved
    next => contradiction
    next front rest queue =>
      split at moved
      next self pc =>
        cases moved
        refine ready.goto places rfl rfl rfl ?_ (by simp [Pc.registering])
        rintro a ⟨⟩
        exact ready.submitted self (tracked.queued_place pc (by rw [queue]; simp))
      next => contradiction

end

theorem reachable_ready (s : State Coro Ctx Cv Shared) (reachable : (machine Coro Ctx Cv Shared).Reachable s) :
    ∃ h g, Invariant s h g ∧ Ready s g := by
  refine @Machine.Within.invariant _ _ _ _ (fun s => ∃ h g, Invariant s h g ∧ Ready s g) ?_ ?_ s reachable
  · exact fun s fresh => ⟨.nobody,.initial,fresh_invariant s fresh,fresh_ready s fresh⟩
  · rintro s s' a ⟨h,g,inv,ready⟩ _ moved
    exact ⟨_,_,inv.step moved,ready.step inv.owned inv.tracked inv.suspending moved⟩

/-- At most one coroutine has the mutex, and one whose wait is complete has it
with its predicate true, until it goes on. -/
structure WaitReturns (s : State Coro Ctx Cv Shared) : Prop where
  exclusive : ∀ t u, s.Owner t → s.Owner u → t = u
  locked : ∀ t, s.Owner t → s.state ≠ .nolocked
  complete : ∀ t a k c, s.pc t = .awaitResume a → s.kind a = .wait k c →
    s.Owner t ∧ ∀ p, c = some p → p s.shared = true
  returned : ∀ t a k c s', s.pc t = .awaitResume a → s.kind a = .wait k c → step s (.step t) = some s' →
    s'.owns t = true ∧ ∀ p, c = some p → p s'.shared = true

theorem Ready.returns {s : State Coro Ctx Cv Shared} {h : Holder Coro} {g : Lists Coro Cv} (ready : Ready s g)
    (owned : Owned s h) : WaitReturns s := by
  have holds : ∀ t a k c, s.pc t = .awaitResume a → s.kind a = .wait k c → ∀ p, c = some p → p s.shared = true := by
    rintro t a k c pc kind p rfl
    have := ready.granted t a (by rw [pc]; rfl)
    rwa [State.ready,kind] at this
  refine ⟨?_,?_,?_,?_⟩
  · intro t u first second
    rw [owned.owner_iff] at first second
    exact Option.some.inj (first.symm.trans second)
  · intro t owner free
    rw [owned.owner_iff,owned.free.mp free] at owner
    contradiction
  · intro t a k c pc kind
    exact ⟨.inr (.inl ⟨t,by rw [pc]; rfl,by rw [State.behalf,pc]; rfl⟩),holds t a k c pc kind⟩
  · intro t a k c s' pc kind moved
    simp only [Mutex.step,Mutex.advance,pc,Option.some.injEq] at moved
    subst moved
    exact ⟨Function.update_self ..,holds t a k c pc kind⟩

/-- `wait` returns with the mutex owned and the predicate true. -/
theorem wait_returns_owning (s : State Coro Ctx Cv Shared) (reachable : (machine Coro Ctx Cv Shared).Reachable s) :
    WaitReturns s := by
  obtain ⟨h,g,inv,ready⟩ := reachable_ready s reachable
  exact ready.returns inv.owned

/-- A coroutine waits until the shared flag is set, which the other one does
before it notifies and unlocks. -/
def setAndNotify : List (Action Bool Unit Unit Bool) :=
  [Action.lock false 0 (),.step false,.step false,.step false,.step false,.wait false 1 () () (some id)] ++
    List.replicate 8 (Action.step false) ++ [Action.tryLock true,.modify true true,.notifyOne true ()] ++
    List.replicate 5 (Action.step true) ++ [Action.unlock true] ++ List.replicate 8 (Action.step true) ++ [Action.exec ()]

theorem set_and_notify_returns_owning : ∃ s, (machine Bool Unit Unit Bool).run initial setAndNotify = some s ∧
    s.contexts.taskQueue () = [] ∧ s.submissions 1 = 1 ∧ WaitReturns s := by
  have ends : ((machine Bool Unit Unit Bool).run initial setAndNotify).map
      (fun s => (s.contexts.taskQueue (),s.submissions 1)) = some ([],1) := by decide
  obtain ⟨s,ran,here⟩ := Option.map_eq_some_iff.mp ends
  obtain ⟨queue,submitted⟩ := Prod.mk.inj here
  exact ⟨s,ran,queue,submitted,wait_returns_owning s (Machine.run_reachable _ _ _ _ (.start initial_fresh) ran)⟩

end TinyCoro.Mutex
