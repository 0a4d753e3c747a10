import TinyCoro.Comp.Mutex

/-! Who holds the mutex. The owner may be a coroutine, a thread that takes or
hands over the lock on behalf of a woken awaiter, or a handle in a task queue. -/
namespace TinyCoro.Mutex
open Library

inductive Holder (Coro : Type)
  | nobody
  | thread (t : Coro)
  | handle (t : Coro)
  deriving DecidableEq

/-- Inside functions that run only with the mutex held. -/
def Pc.holding {Cv : Type} : Pc Cv → Bool
  | .awaitResume _ | .unlock _ | .unlockHead _ | .unlockCompareExchange _ | .unlockExchange _ | .unlockReverse _ _ _
  | .unlockPop _ _ | .resume _ _ | .submitTask _ _ | .cvAwaitSuspend _ | .cvRegisterWait _ _ _ | .cvLock _ _ _
  | .cvLink _ _ _ | .cvUnlock _ _ _ => true
  | _ => false

/-- `unlock` past the failed compare-and-exchange, or past a failed assertion. -/
def Pc.exchanging {Cv : Type} : Pc Cv → Bool
  | .unlockExchange _ | .aborted => true
  | _ => false

section
variable {Cv : Type} (f : Frame Cv)

@[simp] theorem finish_holding : f.finish.holding = false := by
  induction f with
  | resume _ _ ih => exact ih
  | _ => rfl

@[simp] theorem finish_exchanging : f.finish.exchanging = false := by
  induction f with
  | resume _ _ ih => exact ih
  | _ => rfl

end

variable {Coro Ctx Cv Shared : Type} [DecidableEq Coro] [DecidableEq Ctx] [DecidableEq Cv]

def Holder.after (h : Holder Coro) (s : State Coro Ctx Cv Shared) : Action Coro Ctx Cv Shared → Holder Coro
  | .tryLock t => if s.state = .nolocked then .thread t else h
  | .step t =>
    match s.pc t with
    | .compareExchange _ .nolocked _ => if s.state = .nolocked then .thread t else h
    | .unlockCompareExchange _ => if s.state = lockedNoWaiting then .nobody else h
    | .submitTask self _ => .handle (s.awaitCoro self)
    | _ => h
  | .exec x =>
    match s.contexts.taskQueue x with
    | [] => h
    | front::_ => .thread front
  | _ => h

structure Owned (s : State Coro Ctx Cv Shared) (h : Holder Coro) : Prop where
  free : s.state = .nolocked ↔ h = .nobody
  owner : ∀ t, s.owns t = true → h = .thread t ∧ (s.pc t).holding = false
  holds : ∀ t, (s.pc t).holding = true → h = .thread t
  held : ∀ t, h = .thread t → s.owns t = true ∨ (s.pc t).holding = true
  submitted : ∀ t, h = .handle t → ∃ x, s.contexts.taskQueue x = [t] ∧ ∀ y, y ≠ x → s.contexts.taskQueue y = []
  empty : (∀ t, h ≠ .handle t) → ∀ x, s.contexts.taskQueue x = []
  exchanging : ∀ t, (s.pc t).exchanging = true → s.pc t ≠ .aborted ∧ s.state ≠ lockedNoWaiting

omit [DecidableEq Coro] [DecidableEq Ctx] [DecidableEq Cv] in
theorem fresh_owned (s : State Coro Ctx Cv Shared) (fresh : Fresh s) : Owned s .nobody := by
  obtain ⟨state,_,_,_,_,_,pc,owns,queue,_⟩ := fresh
  constructor <;> simp [state,pc,owns,queue,Pc.holding,Pc.exchanging]

omit [DecidableEq Coro] in
private theorem thread_ne {t : Coro} (u : Coro) (other : u ≠ t) : Holder.thread t ≠ .thread u :=
  fun same => other (Holder.thread.inj same).symm

section
variable {s s' : State Coro Ctx Cv Shared} {h : Holder Coro} {t : Coro}

omit [DecidableEq Ctx] [DecidableEq Cv] in
theorem Owned.goto (owned : Owned s h) {p : Pc Cv} (pc : s'.pc = Function.update s.pc t p) (state : s'.state = s.state)
    (owns : s'.owns = s.owns) (queue : s'.contexts.taskQueue = s.contexts.taskQueue)
    (holding : p.holding = (s.pc t).holding) (exchanging : p.exchanging = false) : Owned s' h := by
  have same : ∀ u, (s'.pc u).holding = (s.pc u).holding := by
    intro u
    by_cases here : u = t
    · rw [pc,here,Function.update_self,holding]
    · rw [pc,Function.update_of_ne here]
  refine ⟨?_,?_,?_,?_,?_,?_,?_⟩
  · rw [state]; exact owned.free
  · intro u; rw [owns,same]; exact owned.owner u
  · intro u; rw [same]; exact owned.holds u
  · intro u; rw [owns,same]; exact owned.held u
  · rw [queue]; exact owned.submitted
  · rw [queue]; exact owned.empty
  · intro u here
    rw [pc] at here ⊢
    by_cases same : u = t
    · rw [same,Function.update_self,exchanging] at here
      contradiction
    · rw [Function.update_of_ne same] at here ⊢
      rw [state]
      exact owned.exchanging u here

omit [DecidableEq Coro] [DecidableEq Ctx] [DecidableEq Cv] in
theorem Owned.alone (owned : Owned s h) {t u : Coro} (first : (s.pc t).holding = true)
    (second : (s.pc u).holding = true) : t = u :=
  Holder.thread.inj ((owned.holds t first).symm.trans (owned.holds u second))

omit [DecidableEq Coro] [DecidableEq Ctx] [DecidableEq Cv] in
theorem Owned.locked (owned : Owned s h) (holding : (s.pc t).holding = true) : s.state ≠ .nolocked := by
  intro free
  have nobody := owned.free.mp free
  rw [owned.holds t holding] at nobody
  contradiction

omit [DecidableEq Coro] [DecidableEq Ctx] [DecidableEq Cv] in
theorem Owned.quiet (owned : Owned s h) {u : Coro} (other : h ≠ .thread u) :
    s.owns u = false ∧ (s.pc u).holding = false ∧ (s.pc u).exchanging = false := by
  have owns : s.owns u = false := by
    by_contra owns
    exact other (owned.owner u (by simpa using owns)).1
  have holding : (s.pc u).holding = false := by
    by_contra holding
    exact other (owned.holds u (by simpa using holding))
  refine ⟨owns,holding,?_⟩
  by_contra exchanging
  have running := (owned.exchanging u (by simpa using exchanging)).1
  cases pc : s.pc u with
  | aborted => exact running pc
  | unlockExchange => simp [pc,Pc.holding] at holding
  | _ => simp [pc,Pc.exchanging] at exchanging

omit [DecidableEq Ctx] [DecidableEq Cv] in
/-- The step of the thread `t` that leaves the mutex with `h'`. -/
theorem Owned.pass (owned : Owned s h) {h' : Holder Coro} {p : Pc Cv} (other : ∀ u, u ≠ t → h ≠ .thread u)
    (other' : ∀ u, u ≠ t → h' ≠ .thread u) (pc : s'.pc = Function.update s.pc t p)
    (owns : ∀ u, u ≠ t → s'.owns u = s.owns u) (free : s'.state = .nolocked ↔ h' = .nobody)
    (mine : h' = .thread t ↔ s'.owns t = true ∨ p.holding = true) (apart : s'.owns t = true → p.holding = false)
    (submitted : ∀ u, h' = .handle u → ∃ x, s'.contexts.taskQueue x = [u] ∧ ∀ y, y ≠ x → s'.contexts.taskQueue y = [])
    (empty : (∀ u, h' ≠ .handle u) → ∀ x, s'.contexts.taskQueue x = [])
    (exchanging : p.exchanging = true → p ≠ .aborted ∧ s'.state ≠ lockedNoWaiting) : Owned s' h' := by
  have self : s'.pc t = p := by rw [pc,Function.update_self]
  have others : ∀ u, u ≠ t → s'.pc u = s.pc u := fun u apart => by rw [pc,Function.update_of_ne apart]
  refine ⟨free,?_,?_,?_,submitted,empty,?_⟩
  · intro u here
    by_cases same : u = t
    · subst same
      exact ⟨mine.mpr (.inl here),by rw [self]; exact apart here⟩
    · rw [owns u same,(owned.quiet (other u same)).1] at here
      contradiction
  · intro u here
    by_cases same : u = t
    · subst same
      rw [self] at here
      exact mine.mpr (.inr here)
    · rw [others u same,(owned.quiet (other u same)).2.1] at here
      contradiction
  · intro u here
    by_cases same : u = t
    · subst same
      rw [self]
      exact mine.mp here
    · exact absurd here (other' u same)
  · intro u here
    by_cases same : u = t
    · subst same
      rw [self] at here ⊢
      exact exchanging here
    · rw [others u same,(owned.quiet (other u same)).2.2] at here
      contradiction

omit [DecidableEq Ctx] [DecidableEq Cv] in
theorem Owned.enqueue (owned : Owned s h) {p : Pc Cv} {self : Addr} (locked : s.state ≠ .nolocked)
    (pc : s'.pc = Function.update s.pc t p) (state : s'.state = .locked (some self)) (owns : s'.owns = s.owns)
    (queue : s'.contexts.taskQueue = s.contexts.taskQueue)
    (holding : p.holding = (s.pc t).holding) (exchanging : p.exchanging = false) : Owned s' h := by
  have linked : Owned { s with state := .locked (some self) } h := by
    refine { owned with free := ?_, exchanging := ?_ }
    · simp [← owned.free,locked]
    · exact fun u here => ⟨(owned.exchanging u here).1,by simp [lockedNoWaiting]⟩
  exact linked.goto pc state owns queue holding exchanging

omit [DecidableEq Coro] [DecidableEq Ctx] [DecidableEq Cv] in
theorem Owned.idle (owned : Owned s h) (free : s.state = .nolocked) :
    h = .nobody ∧ s.owns t = false ∧ ∀ x, s.contexts.taskQueue x = [] := by
  have nobody := owned.free.mp free
  subst nobody
  exact ⟨rfl,(owned.quiet (by simp)).1,owned.empty (by simp)⟩

omit [DecidableEq Coro] [DecidableEq Ctx] [DecidableEq Cv] in
/-- While `t` acts on the mutex it has no more claim of its own, and no handle is submitted. -/
theorem Owned.acting (owned : Owned s h) (holding : (s.pc t).holding = true) :
    h = .thread t ∧ s.owns t = false ∧ ∀ x, s.contexts.taskQueue x = [] := by
  have mine := owned.holds t holding
  subst mine
  refine ⟨rfl,?_,owned.empty (by simp)⟩
  by_contra owns
  have quiet := (owned.owner t (by simpa using owns)).2
  rw [holding] at quiet
  contradiction

omit [DecidableEq Coro] [DecidableEq Ctx] [DecidableEq Cv] in
theorem Owned.handle (owned : Owned s h) {x : Ctx} {front : Coro} {rest : List Coro}
    (queue : s.contexts.taskQueue x = front::rest) :
    h = .handle front ∧ rest = [] ∧ ∀ y, y ≠ x → s.contexts.taskQueue y = [] := by
  by_cases some : ∀ t, h ≠ .handle t
  · have empty := owned.empty some x
    rw [queue] at empty
    contradiction
  · obtain ⟨t,here⟩ := not_forall_not.mp some
    obtain ⟨y,single,others⟩ := owned.submitted t here
    by_cases same : x = y
    · subst same
      rw [queue] at single
      obtain ⟨rfl,rfl⟩ := List.cons.inj single
      exact ⟨here,rfl,others⟩
    · have empty := others x same
      rw [queue] at empty
      contradiction

theorem Owned.advance (owned : Owned s h) (moved : advance s t = some s') : Owned s' (h.after s (.step t)) := by
  cases pc : s.pc t with
  | idle | suspended self | aborted => simp [Mutex.advance,pc] at moved
  | compareExchange self state waker =>
    simp only [Mutex.advance,pc] at moved
    split at moved
    next same =>
      subst same
      cases state : s.state with
      | nolocked =>
        simp only [state] at moved
        cases moved
        simp only [Holder.after,pc,state,ite_true]
        obtain ⟨rfl,owns,empty⟩ := owned.idle (t := t) state
        refine owned.pass (by simp) thread_ne rfl (fun _ _ => rfl) ?_ ?_ ?_ (by simp) (fun _ => empty) ?_
        · simp [lockedNoWaiting]
        · simp only [true_iff]
          exact .inr (by split <;> rfl)
        · intro here
          rw [State.goto,owns] at here
          contradiction
        · split <;> simp [Pc.exchanging]
      | locked head =>
        simp only [state] at moved
        cases moved
        simp only [Holder.after,pc,state]
        refine owned.enqueue (by simp [state]) rfl rfl rfl rfl ?_ ?_
        all_goals split <;> (try simp only [pc,finish_holding,finish_exchanging]) <;> rfl
    next other =>
      cases moved
      have same : h.after s (.step t) = h := by
        simp only [Holder.after,pc]
        cases state with
        | nolocked => exact if_neg other
        | locked head => rfl
      rw [same]
      exact owned.goto rfl rfl rfl rfl (by simp [pc,Pc.holding]) rfl
  | awaitResume self =>
    obtain ⟨rfl,owns,empty⟩ := owned.acting (t := t) (by simp [pc,Pc.holding])
    simp only [Mutex.advance,pc,Option.some.injEq] at moved
    subst moved
    simp only [Holder.after,pc]
    refine owned.pass thread_ne thread_ne rfl ?_ owned.free ?_ (fun _ => rfl) (by simp) (fun _ => empty) (by simp [Pc.exchanging])
    · exact fun u other => Function.update_of_ne other ..
    · simp
  | unlock caller =>
    have locked := owned.locked (t := t) (by simp [pc,Pc.holding])
    simp only [Mutex.advance,pc,Option.some.injEq,if_neg locked] at moved
    subst moved
    simp only [Holder.after,pc]
    exact owned.goto rfl rfl rfl rfl (by simp [pc,Pc.holding]) rfl
  | unlockCompareExchange caller =>
    obtain ⟨rfl,owns,empty⟩ := owned.acting (t := t) (by simp [pc,Pc.holding])
    simp only [Mutex.advance,pc] at moved
    simp only [Holder.after,pc]
    split at moved
    next bare =>
      cases moved
      rw [if_pos bare]
      refine owned.pass thread_ne (by simp) rfl (fun _ _ => rfl) (by simp) ?_ ?_ (by simp) (fun _ => empty) (by simp)
      · simp [State.goto,owns]
      · simp
    next waiters =>
      cases moved
      rw [if_neg waiters]
      refine owned.pass thread_ne thread_ne rfl (fun _ _ => rfl) owned.free ?_ ?_ (by simp) (fun _ => empty) ?_
      · simp [Pc.holding]
      · simp [State.goto,owns]
      · exact fun _ => ⟨by simp,waiters⟩
  | unlockExchange caller =>
    obtain ⟨rfl,owns,empty⟩ := owned.acting (t := t) (by simp [pc,Pc.holding])
    have locked := owned.locked (t := t) (by simp [pc,Pc.holding])
    have waiters := (owned.exchanging t (by simp [pc,Pc.exchanging])).2
    simp only [Mutex.advance,pc] at moved
    simp only [Holder.after,pc]
    split at moved
    next head state =>
      cases moved
      refine owned.pass thread_ne thread_ne rfl (fun _ _ => rfl) (by simp [lockedNoWaiting]) ?_ ?_ (by simp) (fun _ => empty) ?_
      · simp [Pc.holding]
      · simp [State.goto,owns]
      · simp [Pc.exchanging]
    next none =>
      cases state : s.state with
      | nolocked => exact absurd state locked
      | locked head =>
        cases head with
        | none => exact absurd state waiters
        | some head => exact absurd state (none head)
  | submitTask self caller =>
    obtain ⟨rfl,owns,empty⟩ := owned.acting (t := t) (by simp [pc,Pc.holding])
    have locked := owned.locked (t := t) (by simp [pc,Pc.holding])
    simp only [Mutex.advance,pc,Option.some.injEq] at moved
    subst moved
    simp only [Holder.after,pc]
    refine owned.pass thread_ne (by simp) rfl (fun _ _ => rfl) (by simpa [State.goto] using locked) ?_ ?_ ?_ (by simp) (by simp)
    · simp [State.goto,owns]
    · simp
    · rintro _ ⟨⟩
      exact ⟨s.ctx self,by simp [empty],fun y other => by rw [Contexts.submitTask_other other]; exact empty y⟩
  | allLoop cv curHead =>
    cases curHead with
    | _ =>
      simp only [Mutex.advance,pc,Option.some.injEq] at moved
      subst moved
      simp only [Holder.after,pc]
      exact owned.goto rfl rfl rfl rfl (by simp only [pc]; rfl) rfl
  | _ =>
    simp only [Mutex.advance,pc] at moved
    simp only [Holder.after,pc]
    repeat' split at moved
    all_goals cases moved
    all_goals refine owned.goto rfl rfl rfl rfl ?_ ?_
    all_goals simp [pc,Pc.holding,Pc.exchanging]

omit [DecidableEq Ctx] [DecidableEq Cv] in
theorem Owned.call (owned : Owned s h) {p : Pc Cv} (mine : s.owns t = true)
    (pc : s'.pc = Function.update s.pc t p) (state : s'.state = s.state)
    (owns : s'.owns = Function.update s.owns t false) (queue : s'.contexts.taskQueue = s.contexts.taskQueue)
    (holding : p.holding = true) (exchanging : p.exchanging = false) : Owned s' h := by
  obtain ⟨rfl,_⟩ := owned.owner t mine
  refine owned.pass thread_ne thread_ne pc ?_ ?_ ?_ ?_ (by simp) ?_ ?_
  · exact fun u other => by rw [owns,Function.update_of_ne other]
  · rw [state]; exact owned.free
  · simp [holding]
  · simp [owns]
  · exact fun _ => queue ▸ owned.empty (by simp)
  · simp [exchanging]

theorem Owned.step {a : Action Coro Ctx Cv Shared} (owned : Owned s h) (moved : step s a = some s') :
    Owned s' (h.after s a) := by
  cases a with
  | step t => exact owned.advance moved
  | tryLock t =>
    simp only [Mutex.step] at moved
    simp only [Holder.after]
    split at moved
    next pc =>
      split at moved
      next free =>
        cases moved
        rw [if_pos free]
        obtain ⟨rfl,owns,empty⟩ := owned.idle (t := t) free
        refine owned.pass (by simp) thread_ne (Function.update_eq_self t s.pc).symm ?_ ?_ ?_ ?_ (by simp) (fun _ => empty) ?_
        · exact fun u other => Function.update_of_ne other ..
        · simp [lockedNoWaiting]
        · simp
        · simp [pc,Pc.holding]
        · simp [pc,Pc.exchanging]
      next held =>
        cases moved
        rw [if_neg held]
        exact owned
    next => contradiction
  | unlock t =>
    simp only [Mutex.step] at moved
    split at moved
    next pc =>
      split at moved
      next mine => cases moved; exact owned.call mine rfl rfl rfl rfl rfl rfl
      next => contradiction
    next => contradiction
  | wait t self x cv cond =>
    simp only [Mutex.step] at moved
    split at moved
    next pc =>
      split at moved
      next mine => cases moved; exact owned.call mine.1 rfl rfl rfl rfl rfl rfl
      next => contradiction
    next => contradiction
  | exec x =>
    cases queue : s.contexts.taskQueue x with
    | nil => simp [Mutex.step,queue] at moved
    | cons front rest =>
      simp only [Mutex.step,queue] at moved
      simp only [Holder.after,queue]
      split at moved
      next self pc =>
        cases moved
        obtain ⟨rfl,rfl,empty⟩ := owned.handle queue
        obtain ⟨owns,_⟩ := owned.quiet (u := front) (by simp)
        refine owned.pass (by simp) thread_ne rfl (fun _ _ => rfl) ?_ ?_ ?_ (by simp) ?_ ?_
        · simpa [State.goto] using owned.free
        · simp [Pc.holding]
        · simp [State.goto,owns]
        · intro _ y
          by_cases same : y = x
          · simp [same]
          · simpa [same] using empty y same
        · simp [Pc.exchanging]
      next => contradiction
  | lock t self x | notifyOne t cv | notifyAll t cv =>
    simp only [Mutex.step] at moved
    split at moved
    next pc => 
      try split at moved
      all_goals cases moved
      all_goals exact owned.goto rfl rfl rfl rfl (by simp [pc,Pc.holding]) rfl
    next => contradiction
  | modify t shared =>
    simp only [Mutex.step] at moved
    split at moved
    next pc =>
      split at moved
      next => cases moved; exact { owned with }
      next => contradiction
    next => contradiction
  | spurious t =>
    simp only [Mutex.step] at moved
    split at moved
    next pc => cases moved; exact owned.goto rfl rfl rfl rfl (by simp [pc,Pc.holding]) rfl
    next => contradiction

end
end TinyCoro.Mutex
