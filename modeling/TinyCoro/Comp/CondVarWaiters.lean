import TinyCoro.Comp.MutexFifo

/-! No waiter of a condition variable is lost or duplicated: an awaiter that was
not submitted is in exactly one of the lists or in the hands of one thread. -/
namespace TinyCoro.Mutex
open Library

/-- Inside a critical section of the spin lock of a condition variable. -/
def Pc.spins {Cv : Type} : Pc Cv → Option Cv
  | .cvLink _ cv _ | .cvUnlock _ cv _ | .oneTake cv | .oneUnlock cv _ | .allTake cv | .allUnlock cv _ => some cv
  | _ => none

@[simp] theorem finish_spins {Cv : Type} (f : Frame Cv) : f.finish.spins = none := by
  induction f with
  | resume _ _ ih => exact ih
  | _ => rfl

/-- A plain awaiter before it is suspended. -/
def Pc.locking {Cv : Type} : Pc Cv → Option Addr
  | .registerWait self | .loadState self none | .compareExchange self _ none => some self
  | _ => none

@[simp] theorem finish_locking {Cv : Type} (f : Frame Cv) : f.finish.locking = none := by
  induction f with
  | resume _ _ ih => exact ih
  | _ => rfl

private theorem self_of_locking {Cv : Type} {pc : Pc Cv} {a : Addr} (locking : pc.locking = some a) : pc.self = some a := by
  cases pc with
  | registerWait b => exact locking
  | loadState b waker | compareExchange b state waker =>
    cases waker with
    | none => exact locking
    | some caller => contradiction
  | _ => contradiction

/-- A `cv_awaiter` before `register_lock` has run for it, or after its wait. -/
def Pc.entering {Cv : Type} : Pc Cv → Bool
  | .cvAwaitSuspend _ | .cvRegisterWait _ _ (.awaitSuspend _) | .awaitResume _ => true
  | _ => false

@[simp] theorem finish_entering {Cv : Type} (f : Frame Cv) : f.finish.entering = false := by
  induction f with
  | resume _ _ ih => exact ih
  | _ => rfl

theorem finish_not_cvAwaitSuspend {Cv : Type} (f : Frame Cv) (a : Addr) : f.finish ≠ .cvAwaitSuspend a := by
  induction f with
  | resume _ _ ih => exact ih
  | _ => simp [Frame.finish]

def Pc.locals {Cv : Type} : Pc Cv → List (Option Addr)
  | .unlockReverse awaiter toResume _ => [some awaiter,toResume]
  | .unlockPop toResume _ => [some toResume]
  | _ => []

/-- The places where an awaiter may wait to be submitted. -/
inductive Site (Coro Cv : Type)
  | cv (k : Cv)
  | state
  | resumeList
  | snapshot (t : Coro)
  | hands (t : Coro)

variable {Coro Ctx Cv Shared : Type} [DecidableEq Coro] [DecidableEq Ctx] [DecidableEq Cv]

def State.Reaches (s : State Coro Ctx Cv Shared) (p : Option Addr) (a : Addr) : Prop := ∃ l, Chain s.next p l ∧ a ∈ l

/-- A running `notify_one`, `notify_all` or `unlock` has one awaiter at work in
its hands, and `unlock` while it turns the list around also its local lists. -/
def State.At (s : State Coro Ctx Cv Shared) (a : Addr) : Site Coro Cv → Prop
  | .cv k => s.Reaches (s.head k) a
  | .state => s.Reaches s.state.next a
  | .resumeList => s.Reaches s.resumeListHead a
  | .snapshot t => s.Reaches (s.pc t).detached a
  | .hands t => (s.pc t).hand = some a ∨ ∃ p ∈ (s.pc t).locals, s.Reaches p a

structure Spinning (s : State Coro Ctx Cv Shared) : Prop where
  locked : ∀ t k, (s.pc t).spins = some k → s.lock k = true
  single : ∀ t u k, (s.pc t).spins = some k → (s.pc u).spins = some k → t = u

structure Suspending (s : State Coro Ctx Cv Shared) : Prop where
  plain : ∀ t a, (s.pc t).locking = some a → s.kind a = .lock
  entered : ∀ t a, s.pc t = .cvAwaitSuspend a → s.suspendState a = false
  slow : ∀ t a, (s.pc t).self = some a → (s.pc t).entering = false → s.kind a ≠ .lock → s.suspendState a = true
  done : ∀ t a, s.pc t = .awaitResume a → s.kind a ≠ .lock → s.submissions a = if s.suspendState a then 1 else 0

section
variable {s s' : State Coro Ctx Cv Shared} {h : Holder Coro} {g : Lists Coro Cv} {t : Coro}

omit [DecidableEq Ctx] [DecidableEq Cv] in
theorem Spinning.goto (spinning : Spinning s) {p q : Pc Cv} (before : s.pc t = q) (pc : s'.pc = Function.update s.pc t p)
    (lock : s'.lock = s.lock) (spins : p.spins = none ∨ p.spins = q.spins) : Spinning s' := by
  have stays : ∀ u k, (s'.pc u).spins = some k → (s.pc u).spins = some k := by
    intro u k here
    by_cases mine : u = t
    · rw [mine,pc,Function.update_self] at here
      rcases spins with none | same
      · rw [none] at here; contradiction
      · rw [mine,before,← same,here]
    · rwa [pc,Function.update_of_ne mine] at here
  refine ⟨?_,?_⟩
  · exact fun u k here => lock ▸ spinning.locked u k (stays u k here)
  · exact fun u v k first second => spinning.single u v k (stays u k first) (stays v k second)

omit [DecidableEq Ctx] in
theorem Spinning.acquire (spinning : Spinning s) {p : Pc Cv} {cv : Cv} (pc : s'.pc = Function.update s.pc t p)
    (lock : s'.lock = Function.update s.lock cv true) (free : ¬ s.lock cv = true) (spins : p.spins = some cv) :
    Spinning s' := by
  have only : ∀ u k, (s'.pc u).spins = some k → u = t ∧ k = cv ∨ k ≠ cv ∧ (s.pc u).spins = some k := by
    intro u k here
    rcases pc_moved pc u with ⟨mine,now⟩ | ⟨_,now⟩
    · rw [now,spins] at here
      exact .inl ⟨mine,(Option.some.inj here).symm⟩
    · rw [now] at here
      refine .inr ⟨fun same => ?_,here⟩
      exact free (same ▸ spinning.locked u k here)
  constructor
  case locked =>
    intro u k here
    rw [lock]
    rcases only u k here with ⟨_,same⟩ | ⟨other,before⟩
    · rw [same,Function.update_self]
    · rw [Function.update_of_ne other]
      exact spinning.locked u k before
  case single =>
    intro u w k first second
    rcases only u k first with ⟨mine,same⟩ | ⟨other,before⟩
    · rcases only w k second with ⟨mine',_⟩ | ⟨other,_⟩
      · rw [mine,mine']
      · exact absurd same other
    · rcases only w k second with ⟨_,same⟩ | ⟨_,before'⟩
      · exact absurd same other
      · exact spinning.single u w k before before'

omit [DecidableEq Ctx] in
theorem Spinning.release (spinning : Spinning s) {p q : Pc Cv} {cv : Cv} (before : s.pc t = q)
    (pc : s'.pc = Function.update s.pc t p) (lock : s'.lock = Function.update s.lock cv false)
    (held : q.spins = some cv) (spins : p.spins = none) : Spinning s' := by
  have only : ∀ u k, (s'.pc u).spins = some k → k ≠ cv ∧ (s.pc u).spins = some k := by
    intro u k here
    rcases pc_moved pc u with ⟨_,now⟩ | ⟨other,now⟩
    · rw [now,spins] at here
      contradiction
    · rw [now] at here
      refine ⟨fun same => ?_,here⟩
      subst same before
      exact other (spinning.single u t k here held)
  constructor
  case locked =>
    intro u k here
    obtain ⟨other,before⟩ := only u k here
    rw [lock,Function.update_of_ne other]
    exact spinning.locked u k before
  case single =>
    intro u w k first second
    exact spinning.single u w k (only u k first).2 (only w k second).2

theorem Spinning.advance (spinning : Spinning s) (moved : advance s t = some s') : Spinning s' := by
  cases pc : s.pc t with
  | idle | suspended self | aborted => simp [Mutex.advance,pc] at moved
  | cvLock self cv caller | oneLock cv | allLock cv =>
    simp only [Mutex.advance,pc] at moved
    split at moved
    next => contradiction
    next free => cases moved; exact spinning.acquire rfl rfl free rfl
  | cvUnlock self cv caller | allUnlock cv curHead =>
    simp only [Mutex.advance,pc,Option.some.injEq] at moved
    subst moved
    exact spinning.release pc rfl rfl rfl rfl
  | oneUnlock cv cur =>
    simp only [Mutex.advance,pc,Option.some.injEq] at moved
    subst moved
    refine spinning.release pc rfl rfl rfl ?_
    cases cur <;> rfl
  | cvLink self cv caller =>
    simp only [Mutex.advance,pc] at moved
    split at moved
    all_goals cases moved
    all_goals exact spinning.goto pc rfl rfl (.inr rfl)
  | oneTake cv =>
    simp only [Mutex.advance,pc] at moved
    split at moved
    all_goals cases moved
    all_goals exact spinning.goto pc rfl rfl (.inr rfl)
  | allTake cv =>
    simp only [Mutex.advance,pc,Option.some.injEq] at moved
    subst moved
    exact spinning.goto pc rfl rfl (.inr rfl)
  | allLoop cv curHead =>
    cases curHead with
    | _ =>
      simp only [Mutex.advance,pc,Option.some.injEq] at moved
      subst moved
      exact spinning.goto pc rfl rfl (.inl rfl)
  | _ =>
    simp only [Mutex.advance,pc] at moved
    repeat' split at moved
    all_goals cases moved
    all_goals refine spinning.goto pc rfl rfl (.inl ?_)
    all_goals first | rfl | exact finish_spins _

theorem Spinning.step {a : Action Coro Ctx Cv Shared} (spinning : Spinning s) (moved : step s a = some s') :
    Spinning s' := by
  cases a with
  | step t => exact spinning.advance moved
  | tryLock t | modify t shared =>
    simp only [Mutex.step] at moved
    repeat' split at moved
    all_goals cases moved
    all_goals exact { spinning with }
  | exec x =>
    simp only [Mutex.step] at moved
    repeat' split at moved
    all_goals try contradiction
    next self pc => cases moved; exact spinning.goto pc rfl rfl (.inl rfl)
  | _ =>
    simp only [Mutex.step] at moved
    split at moved
    all_goals try split at moved
    all_goals cases moved
    all_goals exact spinning.goto (by assumption) rfl rfl (.inl rfl)

omit [DecidableEq Ctx] [DecidableEq Cv] in
/-- A step of one thread that leaves the awaiters of the other coroutines alone,
except that it may suspend one that already waits. -/
theorem Suspending.move (suspending : Suspending s) {p : Pc Cv} (pc : s'.pc = Function.update s.pc t p)
    (kind : ∀ u a, u ≠ t → (s.pc u).self = some a → s'.kind a = s.kind a)
    (stays : ∀ u a, u ≠ t → (s.pc u).self = some a → s.suspendState a = true → s'.suspendState a = true)
    (inside : ∀ u a, u ≠ t → (s.pc u).hand = some a → s'.suspendState a = s.suspendState a)
    (submissions : ∀ u a, u ≠ t → s.pc u = .awaitResume a → s'.submissions a = s.submissions a)
    (plain : ∀ a, p.locking = some a → s'.kind a = .lock) (entered : ∀ a, p = .cvAwaitSuspend a → s'.suspendState a = false)
    (slow : ∀ a, p.self = some a → p.entering = false → s'.kind a ≠ .lock → s'.suspendState a = true)
    (done : ∀ a, p = .awaitResume a → s'.kind a ≠ .lock → s'.submissions a = if s'.suspendState a then 1 else 0) :
    Suspending s' := by
  constructor
  case plain =>
    intro u a here
    rcases pc_moved pc u with ⟨_,now⟩ | ⟨other,now⟩
    · rw [now] at here
      exact plain a here
    · rw [now] at here
      rw [kind u a other (self_of_locking here)]
      exact suspending.plain u a here
  case entered =>
    intro u a here
    rcases pc_moved pc u with ⟨_,now⟩ | ⟨other,now⟩
    · rw [now] at here
      exact entered a here
    · rw [now] at here
      rw [inside u a other (by rw [here]; rfl)]
      exact suspending.entered u a here
  case slow =>
    intro u a here entering waits
    rcases pc_moved pc u with ⟨_,now⟩ | ⟨other,now⟩
    · rw [now] at here entering
      exact slow a here entering waits
    · rw [now] at here entering
      rw [kind u a other here] at waits
      exact stays u a other here (suspending.slow u a here entering waits)
  case done =>
    intro u a here waits
    rcases pc_moved pc u with ⟨_,now⟩ | ⟨other,now⟩
    · rw [now] at here
      exact done a here waits
    · rw [now] at here
      rw [kind u a other (by rw [here]; rfl)] at waits
      rw [submissions u a other here,inside u a other (by rw [here]; rfl)]
      exact suspending.done u a here waits

omit [DecidableEq Ctx] [DecidableEq Cv] in
theorem Suspending.goto (suspending : Suspending s) {p q : Pc Cv} (before : s.pc t = q)
    (pc : s'.pc = Function.update s.pc t p) (kind : s'.kind = s.kind) (suspendState : s'.suspendState = s.suspendState)
    (submissions : ∀ u a, s.pc u = .awaitResume a → s'.submissions a = s.submissions a)
    (locking : p.locking = none ∨ p.locking = q.locking) (entered : ∀ a, p ≠ .cvAwaitSuspend a)
    (done : ∀ a, p = .awaitResume a → s.kind a ≠ .lock → s'.submissions a = if s.suspendState a then 1 else 0)
    (slow : p.self = none ∨ p.entering = true ∨ p.self = q.self ∧ q.entering = false) : Suspending s' := by
  have same : ∀ a, s'.suspendState a = s.suspendState a := congrFun suspendState
  have kinds : ∀ a, s'.kind a = s.kind a := congrFun kind
  subst before
  refine suspending.move pc (fun _ a _ _ => kinds a) (fun _ a _ _ => (same a).trans) (fun _ a _ _ => same a)
    (fun u a _ => submissions u a) ?plain (fun a here => absurd here (entered a)) ?slow ?done
  case plain =>
    intro a here
    rw [kinds]
    rcases locking with outside | kept
    · rw [outside] at here
      contradiction
    · exact suspending.plain t a (kept ▸ here)
  case slow =>
    intro a here entering waits
    rw [kinds] at waits
    rw [same]
    rcases slow with nobody | enters | ⟨kept,already⟩
    · rw [nobody] at here
      contradiction
    · rw [enters] at entering
      contradiction
    · exact suspending.slow t a (kept ▸ here) already waits
  case done =>
    intro a here waits
    rw [kinds] at waits
    rw [same]
    exact done a here waits

theorem Suspending.advance (suspending : Suspending s) (tracked : Tracked s g) (counted : Counted s g)
    (moved : advance s t = some s') : Suspending s' := by
  cases pc : s.pc t with
  | idle | suspended self | aborted => simp [Mutex.advance,pc] at moved
  | cvRegisterWait self cv caller =>
    have caller' := (tracked.placed.registering t self cv caller (by rw [pc]; rfl)).2
    have alone : ∀ u, (s.pc u).hand = some self → u = t :=
      fun u => tracked.placed.hand_unique (by rw [pc]; rfl)
    simp only [Mutex.advance,pc,Option.some.injEq] at moved
    subst moved
    have kept : ∀ a, a ≠ self → Function.update s.suspendState self true a = s.suspendState a :=
      fun a ne => Function.update_of_ne ne ..
    refine suspending.move rfl (fun _ _ _ _ => rfl) ?stays ?inside (fun _ _ _ _ => rfl) (by simp [Pc.locking]) (by simp)
      ?slow (by simp)
    case stays =>
      intro u a _ _ before
      by_cases same : a = self
      · subst same
        exact Function.update_self ..
      · exact (kept a same).trans before
    case inside =>
      intro u a other here
      refine kept a fun same => ?_
      exact other (alone u (same ▸ here))
    case slow =>
      intro a here _ waits
      by_cases same : a = self
      · subst same
        exact Function.update_self ..
      · refine (kept a same).trans (suspending.slow t a ?_ ?_ waits)
        · rw [pc]
          exact here
        · rw [pc]
          rcases caller' with rfl | ⟨f,rfl⟩
          · exact absurd (Option.some.inj here).symm same
          · rfl
  | submitTask self caller =>
    have apart : ∀ u a, s.pc u = .awaitResume a → a ≠ self := by
      intro u a here same
      subst same
      have mine := tracked.placed.hand_unique (t := t) (u := u) (a := a) (by rw [pc]; rfl) (by rw [here]; rfl)
      rw [← mine,here] at pc
      contradiction
    simp only [Mutex.advance,pc,Option.some.injEq] at moved
    subst moved
    refine suspending.goto pc rfl rfl rfl ?_ (.inl (finish_locking caller)) (finish_not_cvAwaitSuspend caller) ?_
      (.inr (.inr ⟨finish_self caller,rfl⟩))
    · exact fun u a here => Function.update_of_ne (apart u a here) ..
    · exact fun a here => absurd here (finish_not_awaitResume caller a)
  | cvAwaitSuspend self =>
    have fast := suspending.entered t self pc
    have unsubmitted := counted.unsubmitted tracked (t := t) (a := self) (by rw [pc]; rfl) (by simp [pc])
    simp only [Mutex.advance,pc] at moved
    split at moved
    next => contradiction
    next cv cond kind =>
      cases moved
      split
      next =>
        refine suspending.goto pc rfl rfl rfl (fun _ _ _ => rfl) (.inl rfl) (by simp) ?_ (.inr (.inl rfl))
        rintro a ⟨⟩ _
        simp [State.goto,fast,unsubmitted]
      next => exact suspending.goto pc rfl rfl rfl (fun _ _ _ => rfl) (.inl rfl) (by simp) (by simp) (.inr (.inl rfl))
  | compareExchange self state waker =>
    simp only [Mutex.advance,pc] at moved
    split at moved
    next =>
      cases state with
      | nolocked =>
        cases moved
        cases waker with
        | none =>
          have plain := suspending.plain t self (by rw [pc]; rfl)
          refine suspending.goto pc rfl rfl rfl (fun _ _ _ => rfl) (.inl rfl) (by simp) ?_ (.inr (.inl rfl))
          rintro a ⟨⟩ waits
          exact absurd plain waits
        | some caller =>
          exact suspending.goto pc rfl rfl rfl (fun _ _ _ => rfl) (.inl rfl) (by simp) (by simp) (.inr (.inr ⟨rfl,rfl⟩))
      | locked head =>
        cases moved
        cases waker with
        | none =>
          exact suspending.goto pc rfl rfl rfl (fun _ _ _ => rfl) (.inl rfl) (by simp) (by simp) (.inr (.inr ⟨rfl,rfl⟩))
        | some caller =>
          exact suspending.goto pc rfl rfl rfl (fun _ _ _ => rfl) (.inl (finish_locking caller))
            (finish_not_cvAwaitSuspend caller) (fun a here => absurd here (finish_not_awaitResume caller a))
            (.inr (.inr ⟨finish_self caller,rfl⟩))
    next =>
      cases moved
      refine suspending.goto pc rfl rfl rfl (fun _ _ _ => rfl) (.inr ?_) (by simp) (by simp) (.inr (.inr ⟨?_,rfl⟩))
      all_goals cases waker <;> rfl
  | loadState self waker =>
    simp only [Mutex.advance,pc,Option.some.injEq] at moved
    subst moved
    refine suspending.goto pc rfl rfl rfl (fun _ _ _ => rfl) (.inr ?_) (by simp) (by simp) (.inr (.inr ⟨?_,rfl⟩))
    all_goals cases waker <;> rfl
  | unlockCompareExchange caller =>
    simp only [Mutex.advance,pc] at moved
    split at moved
    next =>
      cases moved
      exact suspending.goto pc rfl rfl rfl (fun _ _ _ => rfl) (.inl (finish_locking caller))
        (finish_not_cvAwaitSuspend caller) (fun a here => absurd here (finish_not_awaitResume caller a))
        (.inr (.inr ⟨finish_self caller,rfl⟩))
    next =>
      cases moved
      exact suspending.goto pc rfl rfl rfl (fun _ _ _ => rfl) (.inl rfl) (by simp) (by simp) (.inr (.inr ⟨rfl,rfl⟩))
  | oneUnlock cv cur =>
    simp only [Mutex.advance,pc,Option.some.injEq] at moved
    subst moved
    cases cur <;>
      exact suspending.goto pc rfl rfl rfl (fun _ _ _ => rfl) (.inl rfl) (by simp) (by simp) (.inl rfl)
  | allLoop cv curHead =>
    cases curHead <;>
      simp only [Mutex.advance,pc,Option.some.injEq] at moved <;>
      subst moved <;>
      exact suspending.goto pc rfl rfl rfl (fun _ _ _ => rfl) (.inl rfl) (by simp) (by simp) (.inl rfl)
  | awaitResume self =>
    simp only [Mutex.advance,pc,Option.some.injEq] at moved
    subst moved
    exact suspending.goto pc rfl rfl rfl (fun _ _ _ => rfl) (.inl rfl) (by simp) (by simp) (.inl rfl)
  | registerWait self =>
    simp only [Mutex.advance,pc,Option.some.injEq] at moved
    subst moved
    exact suspending.goto pc rfl rfl rfl (fun _ _ _ => rfl) (.inr rfl) (by simp) (by simp) (.inr (.inr ⟨rfl,rfl⟩))
  | unlockReverse awaiter toResume caller =>
    simp only [Mutex.advance,pc,Option.some.injEq] at moved
    subst moved
    refine suspending.goto pc rfl rfl rfl (fun _ _ _ => rfl) (.inl ?_) ?_ ?_ (.inr (.inr ⟨?_,rfl⟩))
    all_goals split
    all_goals first | rfl | simp
  | _ =>
    simp only [Mutex.advance,pc] at moved
    repeat' split at moved
    all_goals cases moved
    all_goals refine suspending.goto pc rfl rfl rfl (fun _ _ _ => rfl) (.inl rfl) (by simp) (by simp) ?_
    all_goals first | exact .inr (.inr ⟨rfl,rfl⟩) | exact .inl rfl

omit [DecidableEq Ctx] [DecidableEq Cv] in
theorem Suspending.construct (suspending : Suspending s) (placed : Placed s g.place) {self : Addr} {x : Ctx}
    {kind : Kind Cv Shared} {p : Pc Cv} {owns : Coro → Bool} (free : s.live self = false)
    (locking : p.locking = none ∨ kind = .lock) (entered : p.hand = some self) (entering : p.entering = true ∨ kind = .lock)
    (self' : p.self = some self) (resumed : ∀ a, p ≠ .awaitResume a) :
    Suspending { (s.construct t self x kind).goto t p with owns := owns } := by
  have apart : ∀ u a, (s.pc u).self = some a → a ≠ self := by
    intro u a here same
    subst same
    rw [(placed.live u a here).1] at free
    contradiction
  have apart' : ∀ u a, (s.pc u).hand = some a → a ≠ self := by
    intro u a here same
    subst same
    rw [placed.live_of_hand here] at free
    contradiction
  have mine : ∀ a, p.self = some a → a = self := by
    intro a here
    rw [self'] at here
    exact (Option.some.inj here).symm
  have kept : ∀ a, a ≠ self → Function.update s.suspendState self false a = s.suspendState a :=
    fun a ne => Function.update_of_ne ne ..
  refine suspending.move rfl ?kind ?stays ?inside ?submissions ?plain ?entered ?slow (fun a here => absurd here (resumed a))
  case kind => exact fun u a _ here => Function.update_of_ne (apart u a here) ..
  case stays => exact fun u a _ here before => (kept a (apart u a here)).trans before
  case inside => exact fun u a _ here => kept a (apart' u a here)
  case submissions => exact fun u a _ here => Function.update_of_ne (apart u a (by rw [here]; rfl)) ..
  case plain =>
    intro a here
    rcases locking with outside | plain
    · rw [outside] at here
      contradiction
    · rw [mine a (self_of_locking here)]
      exact (Function.update_self ..).trans plain
  case entered =>
    intro a here
    rw [mine a (by rw [here]; rfl)]
    exact Function.update_self ..
  case slow =>
    intro a here entering' waits
    rcases entering with enters | plain
    · rw [enters] at entering'
      contradiction
    · refine absurd ?_ waits
      rw [mine a here]
      exact (Function.update_self ..).trans plain

theorem Suspending.step {a : Action Coro Ctx Cv Shared} (suspending : Suspending s) (tracked : Tracked s g)
    (counted : Counted s g) (moved : step s a = some s') : Suspending s' := by
  cases a with
  | step t => exact suspending.advance tracked counted moved
  | lock t self x =>
    simp only [Mutex.step] at moved
    split at moved
    next pc =>
      split at moved
      next => contradiction
      next free =>
        cases moved
        exact suspending.construct tracked.placed (by simpa using free) (.inr rfl) rfl (.inr rfl) rfl (by simp)
    next => contradiction
  | wait t self x cv cond =>
    simp only [Mutex.step] at moved
    split at moved
    next pc =>
      split at moved
      next free =>
        cases moved
        exact suspending.construct tracked.placed free.2 (.inl rfl) rfl (.inl rfl) rfl (by simp)
      next => contradiction
    next => contradiction
  | tryLock t | modify t shared =>
    simp only [Mutex.step] at moved
    repeat' split at moved
    all_goals cases moved
    all_goals exact { suspending with }
  | unlock t | notifyOne t cv | notifyAll t cv =>
    simp only [Mutex.step] at moved
    split at moved
    all_goals try split at moved
    all_goals cases moved
    all_goals exact suspending.goto (by assumption) rfl rfl rfl (fun _ _ _ => rfl) (.inl rfl) (by simp) (by simp) (.inl rfl)
  | spurious t =>
    simp only [Mutex.step] at moved
    split at moved
    next self state waker pc =>
      cases moved
      refine suspending.goto pc rfl rfl rfl (fun _ _ _ => rfl) (.inr ?_) (by simp) (by simp) (.inr (.inr ⟨?_,rfl⟩))
      all_goals cases waker <;> rfl
    next => contradiction
  | exec x =>
    simp only [Mutex.step] at moved
    split at moved
    next => contradiction
    next front rest queue =>
      split at moved
      next self pc =>
        cases moved
        refine suspending.goto pc rfl rfl rfl (fun _ _ _ => rfl) (.inl rfl) (by simp) ?_ (.inr (.inl rfl))
        rintro a ⟨⟩ kind
        rw [suspending.slow front self (by rw [pc]; rfl) (by rw [pc]; rfl) kind]
        exact counted.submitted self (tracked.queued_place pc (by rw [queue]; simp))
      next => contradiction

omit [DecidableEq Coro] [DecidableEq Ctx] [DecidableEq Cv] in
theorem fresh_spinning (s : State Coro Ctx Cv Shared) (fresh : Fresh s) : Spinning s := by
  obtain ⟨_,_,_,_,_,_,pc,_⟩ := fresh
  constructor <;> simp [pc,Pc.spins]

omit [DecidableEq Coro] [DecidableEq Ctx] [DecidableEq Cv] in
private theorem fresh_suspending (s : State Coro Ctx Cv Shared) (fresh : Fresh s) : Suspending s := by
  obtain ⟨_,_,_,_,_,_,pc,_⟩ := fresh
  constructor <;> simp [pc,Pc.locking,Pc.self,Pc.frame]

end

structure Invariant (s : State Coro Ctx Cv Shared) (h : Holder Coro) (g : Lists Coro Cv) : Prop where
  owned : Owned s h
  tracked : Tracked s g
  counted : Counted s g
  spinning : Spinning s
  suspending : Suspending s

theorem Invariant.step {s s' : State Coro Ctx Cv Shared} {h : Holder Coro} {g : Lists Coro Cv}
    {a : Action Coro Ctx Cv Shared} (inv : Invariant s h g) (moved : step s a = some s') :
    Invariant s' (h.after s a) (g.after s a) := by
  obtain ⟨owned,tracked,counted,spinning,suspending⟩ := inv
  exact ⟨owned.step moved,tracked.step owned moved,counted.step tracked owned moved,spinning.step moved,
    suspending.step tracked counted moved⟩

omit [DecidableEq Coro] [DecidableEq Ctx] [DecidableEq Cv] in
theorem fresh_invariant (s : State Coro Ctx Cv Shared) (fresh : Fresh s) : Invariant s .nobody .initial :=
  ⟨fresh_owned s fresh,⟨fresh_placed s fresh,fresh_linked s fresh⟩,fresh_counted s fresh,fresh_spinning s fresh,
    fresh_suspending s fresh⟩

theorem reachable_invariant (s : State Coro Ctx Cv Shared) (reachable : (machine Coro Ctx Cv Shared).Reachable s) :
    ∃ h g, Invariant s h g := by
  refine @Machine.Within.invariant _ _ _ _ (fun s => ∃ h g, Invariant s h g) ?_ ?_ s reachable
  · exact fun s fresh => ⟨.nobody,.initial,fresh_invariant s fresh⟩
  · rintro s s' a ⟨h,g,inv⟩ _ moved
    exact ⟨_,_,inv.step moved⟩

section
variable {s : State Coro Ctx Cv Shared} {h : Holder Coro} {g : Lists Coro Cv}

omit [DecidableEq Coro] [DecidableEq Ctx] [DecidableEq Cv] in
theorem reaches_iff {p : Option Addr} {l : List Addr} (chain : Chain s.next p l) (a : Addr) :
    s.Reaches p a ↔ a ∈ l := by
  constructor
  · rintro ⟨l',chain',member⟩
    rw [chain.unique chain']
    exact member
  · exact fun member => ⟨l,chain,member⟩

def Site.OfPlace (s : State Coro Ctx Cv Shared) (place : Place Coro Cv) : Site Coro Cv → Prop
  | .cv k => place = .cv k
  | .state => place = .state
  | .resumeList => place = .resumeList ∧ ∀ t, (s.pc t).reversing = false
  | .snapshot t => place = .snapshot t
  | .hands t => place = .hand t ∨ place = .resumeList ∧ (s.pc t).reversing = true

omit [DecidableEq Coro] [DecidableEq Ctx] [DecidableEq Cv] in
/-- What a running `unlock` reaches from its local pointers is the list of the resumes. -/
theorem Linked.locals (linked : Linked s g) (t : Coro) (a : Addr) :
    (∃ p ∈ (s.pc t).locals, s.Reaches p a) ↔ a ∈ g.ready ∧ (s.pc t).reversing = true := by
  cases pc : s.pc t with
  | unlockReverse awaiter toResume caller =>
    obtain ⟨left,turned,first,second,ready⟩ := linked.reverse t awaiter toResume caller pc
    simp [Pc.locals,Pc.reversing,reaches_iff first,reaches_iff second,ready]
  | unlockPop toResume caller =>
    simp [Pc.locals,Pc.reversing,reaches_iff (linked.pop t toResume caller pc)]
  | _ => simp [Pc.locals,Pc.reversing]

private theorem refilling_of_reversing {Cv : Type} {pc : Pc Cv} (turns : pc.reversing = true) : pc.refilling = true := by
  cases pc with
  | unlockReverse | unlockPop => rfl
  | _ => contradiction

omit [DecidableEq Coro] [DecidableEq Ctx] [DecidableEq Cv] in
private theorem Tracked.at_iff (tracked : Tracked s g) (a : Addr) (site : Site Coro Cv) :
    s.At a site ↔ site.OfPlace s (g.place a) := by
  have linked := tracked.linked
  cases site with
  | cv k => exact (reaches_iff (linked.waiting k) a).trans (linked.inWaiting k a)
  | state => exact (reaches_iff linked.chain a).trans (linked.inChain a)
  | snapshot t => exact (reaches_iff (linked.snapshot t) a).trans (linked.inSnapshot t a)
  | hands t =>
    simp only [State.At,Site.OfPlace]
    rw [tracked.placed.hand,linked.locals,linked.inReady]
  | resumeList =>
    simp only [State.At,Site.OfPlace]
    by_cases quiet : ∀ t, (s.pc t).reversing = false
    · rw [reaches_iff (linked.resumeList quiet),linked.inReady]
      exact ⟨fun place => ⟨place,quiet⟩,And.left⟩
    · obtain ⟨t,turns⟩ := not_forall.mp quiet
      have refills := refilling_of_reversing (by simpa using turns)
      rw [linked.refilling t refills,reaches_iff (Chain.nil_iff.mpr rfl)]
      exact ⟨fun absent => absurd absent (by simp),fun place => absurd place.2 quiet⟩

omit [DecidableEq Coro] [DecidableEq Ctx] [DecidableEq Cv] in
/-- An awaiter that was not submitted is at one site. -/
theorem Invariant.one_site (inv : Invariant s h g) {a : Addr} (live : s.live a = true) (waits : g.place a ≠ .submitted) :
    ∃! site, s.At a site := by
  have present : g.place a ≠ .gone := fun gone => by
    rw [inv.tracked.placed.gone,live] at gone
    contradiction
  simp only [inv.tracked.at_iff]
  cases place : g.place a with
  | gone => exact absurd place present
  | submitted => exact absurd place waits
  | cv k => exact ⟨.cv k,rfl,fun site at' => by cases site <;> simp_all [Site.OfPlace]⟩
  | state => exact ⟨.state,rfl,fun site at' => by cases site <;> simp_all [Site.OfPlace]⟩
  | snapshot t => exact ⟨.snapshot t,rfl,fun site at' => by cases site <;> simp_all [Site.OfPlace]⟩
  | hand t => exact ⟨.hands t,.inl rfl,fun site at' => by cases site <;> simp_all [Site.OfPlace]⟩
  | resumeList =>
    by_cases quiet : ∀ t, (s.pc t).reversing = false
    · exact ⟨.resumeList,⟨rfl,quiet⟩,fun site at' => by cases site <;> simp_all [Site.OfPlace]⟩
    · obtain ⟨t,turns⟩ := not_forall.mp quiet
      have turning : (s.pc t).reversing = true := by simpa using turns
      refine ⟨.hands t,.inr ⟨rfl,turning⟩,fun site at' => ?_⟩
      cases site with
      | hands u =>
        simp only [Site.OfPlace,reduceCtorEq,false_or,true_and] at at'
        rw [inv.owned.alone (holding_of_reversing (.inl at')) (holding_of_reversing (.inl turning))]
      | resumeList => exact absurd at'.2 quiet
      | _ => simp_all [Site.OfPlace]

end

/-- Every awaiter is in one place until it is submitted, once. -/
structure NoWaiterLost (s : State Coro Ctx Cv Shared) : Prop where
  placed : ∀ a, s.live a = true → s.submissions a = 0 →
    (∀ x, s.awaitCoro a ∉ s.contexts.taskQueue x) ∧ ∃! site, s.At a site
  once : ∀ a, s.live a = true → s.submissions a ≤ 1
  submitted : ∀ a, s.live a = true → s.submissions a = 1 → s.pc (s.awaitCoro a) = .awaitResume a ∨
    s.pc (s.awaitCoro a) = .suspended a ∧ (∀ site, ¬ s.At a site) ∧
      s.contexts.taskQueue (s.ctx a) = [s.awaitCoro a] ∧ ∀ y, y ≠ s.ctx a → s.contexts.taskQueue y = []
  completed : ∀ t a, s.pc t = .awaitResume a → s.kind a ≠ .lock → s.submissions a = if s.suspendState a then 1 else 0
  exclusive : ∀ t u k, (s.pc t).spins = some k → (s.pc u).spins = some k → s.lock k = true ∧ t = u
  wellFormed : ∀ k, s.lock k = false → ∃ l, Chain s.next (s.head k) l ∧ s.tail k = l.getLast? ∧
    (s.head k = none ↔ s.tail k = none) ∧ (∀ b, s.tail k = some b → s.next b = none) ∧
    l = (s.registrations k).drop (s.taken k)

omit [DecidableEq Coro] [DecidableEq Ctx] [DecidableEq Cv] in
theorem Invariant.noWaiterLost {s : State Coro Ctx Cv Shared} {h : Holder Coro} {g : Lists Coro Cv}
    (inv : Invariant s h g) : NoWaiterLost s := by
  have counted := inv.counted
  have tracked := inv.tracked
  have present : ∀ a, s.live a = true → g.place a ≠ .gone := fun a live gone => by
    rw [tracked.placed.gone,live] at gone
    contradiction
  have resumes : ∀ a, s.live a = true → g.place a ≠ .submitted → s.submissions a ≠ 0 →
      s.pc (s.awaitCoro a) = .awaitResume a := fun a live waits some =>
    by_contra fun other => some (counted.waiting a (present a live) waits other)
  refine ⟨?_,?_,?_,inv.suspending.done,?_,?_⟩
  · intro a live zero
    have waits : g.place a ≠ .submitted := fun place => by
      rw [counted.submitted a place] at zero
      contradiction
    refine ⟨fun x member => ?_,inv.one_site live waits⟩
    obtain ⟨b,place,coro,_⟩ := tracked.placed.queued _ x member
    have first := (tracked.placed.submitted b place).1
    have self := tracked.placed.self a live
    rw [coro] at first
    rw [first] at self
    rw [Option.some.inj self] at place
    exact waits place
  · intro a live
    by_cases place : g.place a = .submitted
    · exact Nat.le_of_eq (counted.submitted a place)
    · by_cases zero : s.submissions a = 0
      · omega
      · exact counted.resumed _ a (resumes a live place zero)
  · intro a live one
    by_cases place : g.place a = .submitted
    · refine .inr ⟨(tracked.placed.submitted a place).1,fun site at' => ?_,tracked.submitted_single inv.owned place⟩
      rw [tracked.at_iff,place] at at'
      cases site <;> simp [Site.OfPlace] at at'
    · exact .inl (resumes a live place (by omega))
  · exact fun t u k first second => ⟨inv.spinning.locked t k first,inv.spinning.single t u k first second⟩
  · intro k _
    have chain := tracked.linked.waiting k
    have tail := tracked.linked.tail k
    refine ⟨g.waiting k,chain,tail,?_,?_,counted.order k⟩
    · rw [tail]
      cases waiting : g.waiting k with
      | nil => rw [waiting] at chain; simpa using chain
      | cons b rest => rw [waiting] at chain; simp [chain.1]
    · exact fun b last => chain.last (tail ▸ last)

/-- No waiter of a condition variable is lost or duplicated. -/
theorem no_waiter_lost (s : State Coro Ctx Cv Shared) (reachable : (machine Coro Ctx Cv Shared).Reachable s) :
    NoWaiterLost s := by
  obtain ⟨h,g,inv⟩ := reachable_invariant s reachable
  exact inv.noWaiterLost

def lockAndWait : List (Action Bool Unit Unit Bool) :=
  [.lock false 0 (),.step false,.step false,.step false,.step false,.wait false 1 () () none,.step false,.step false,
    .step false,.step false,.step false,.step false,.step false,.step false]

theorem lock_and_wait_loses_no_waiter : ∃ s, (machine Bool Unit Unit Bool).run initial lockAndWait = some s ∧
    s.head () = some 1 ∧ NoWaiterLost s := by
  have head : ((machine Bool Unit Unit Bool).run initial lockAndWait).map (fun s => s.head ()) = some (some 1) := by decide
  obtain ⟨s,ran,here⟩ := Option.map_eq_some_iff.mp head
  exact ⟨s,ran,here,no_waiter_lost s (Machine.run_reachable _ _ _ _ (.start initial_fresh) ran)⟩

end TinyCoro.Mutex
