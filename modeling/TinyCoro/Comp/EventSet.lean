import TinyCoro.Comp.Event
import TinyCoro.Library.WaitList

/-! Every suspended waiter of an event is in the list of `m_state`, in the list that the
first `set` has detached, or submitted; after the first `set` nobody is linked. -/
namespace TinyCoro.Event
open Library

def AwaiterPtr.head : AwaiterPtr → Option Addr
  | .set => none
  | .waiting head => head

def Pc.stage : Pc → WaitList.Stage Addr
  | .idle => .outside
  | .registerWait a | .isSet a | .loadState a | .awaitResume a => .inside a
  | .compareExchange a oldValue => .linking a oldValue
  | .suspended a => .asleep a
  | .exchange => .calling
  | .drain waiter => .drain waiter
  | .resume cur next => .wake cur next

variable {V Coro Ctx : Type} [DecidableEq Coro] [DecidableEq Ctx]

def State.waiters (s : State V Coro Ctx) : WaitList.State Coro Ctx Addr where
  head := s.state.head
  next := s.next
  live := s.live
  party := s.awaitCoro
  place := s.ctx
  stage t := (s.pc t).stage
  queue := s.contexts.taskQueue
  suspensions := s.suspensions
  submissions := s.submissions

theorem outside_iff {p : Pc} : p.stage = .outside ↔ p = .idle := by
  cases p <;> simp [Pc.stage]

theorem asleep_iff {p : Pc} {a : Addr} : p.stage = .asleep a ↔ p = .suspended a := by
  cases p <;> simp [Pc.stage]

theorem waiter_stage (p : Pc) : p.stage.waiter = p.awaiter := by
  cases p <;> rfl

theorem detached_of_quiet {p : Pc} (quiet : p.draining = false) : p.stage.detached = none := by
  cases p <;> first | rfl | contradiction

section
variable {s s' : State V Coro Ctx} {t : Coro}

omit [DecidableEq Coro] [DecidableEq Ctx] in
theorem waits_iff : WaitList.Waits s.waiters t ↔ s.Waiting t := by
  simp only [WaitList.Waits,State.waiters,asleep_iff,State.Waiting]

omit [DecidableEq Coro] [DecidableEq Ctx] in
theorem stage_of {p : Pc} (here : s.pc t = p) : s.waiters.stage t = p.stage := congrArg Pc.stage here

omit [DecidableEq Coro] [DecidableEq Ctx] in
private theorem fresh_waiters (s : State V Coro Ctx) (fresh : Fresh s) : WaitList.Fresh s.waiters := by
  obtain ⟨state,storage,live,pc,queue,suspensions,submissions,_⟩ := fresh
  refine ⟨?_,fun t => stage_of (pc t),queue,suspensions,submissions⟩
  dsimp only [State.waiters]
  rw [state]
  split <;> rfl

omit [DecidableEq Ctx] in
private theorem goto_waiters (q : Pc) : (s.goto t q).waiters = s.waiters.goto t q.stage := by
  simp only [State.waiters,State.goto,WaitList.State.goto]
  congr 1
  exact Function.comp_update Pc.stage s.pc t q

omit [DecidableEq Ctx] in
private theorem stays {p q : Pc} (here : s.pc t = p) (same : q.stage = p.stage) : (s.goto t q).waiters = s.waiters := by
  rw [goto_waiters]
  exact s.waiters.goto_self t ((stage_of here).trans same.symm)

private theorem waits_advance (moved : advance s t = some s') : WaitList.Step s.waiters s'.waiters := by
  cases pc : s.pc t with
  | idle | suspended a => simp [Event.advance,pc] at moved
  | registerWait a =>
    simp only [Event.advance,pc,Option.some.injEq] at moved
    subst moved
    change WaitList.Step s.waiters (s.goto t (.isSet a)).waiters
    rw [stays pc (by rfl)]
    exact .stay _
  | isSet a =>
    simp only [Event.advance,pc,Option.some.injEq] at moved
    subst moved
    rw [stays pc (by split <;> rfl)]
    exact .stay _
  | loadState a =>
    simp only [Event.advance,pc] at moved
    split at moved
    next =>
      cases moved
      change WaitList.Step s.waiters { (s.goto t (.awaitResume a)).waiters with next := _ }
      rw [stays pc (by rfl)]
      exact .write s.waiters t a none (stage_of pc)
    next oldValue _ =>
      cases moved
      change WaitList.Step s.waiters { (s.goto t (.compareExchange a oldValue)).waiters with next := _ }
      rw [goto_waiters]
      exact .load s.waiters t a oldValue (stage_of pc)
  | compareExchange a oldValue =>
    simp only [Event.advance,pc] at moved
    split at moved
    next same =>
      cases moved
      change WaitList.Step s.waiters { (s.goto t (.suspended a)).waiters with head := some a, suspensions := _ }
      rw [goto_waiters]
      refine .link s.waiters t a ?_
      rw [stage_of pc]
      simp only [State.waiters,same]
      rfl
    next =>
      cases moved
      rw [goto_waiters]
      exact .retry s.waiters t a oldValue (stage_of pc)
  | awaitResume a =>
    simp only [Event.advance,pc,Option.some.injEq] at moved
    subst moved
    change WaitList.Step s.waiters { (s.goto t .idle).waiters with live := _ }
    rw [goto_waiters]
    exact .leave s.waiters t a (stage_of pc)
  | exchange =>
    simp only [Event.advance,pc] at moved
    split at moved
    next =>
      cases moved
      change WaitList.Step s.waiters (s.goto t .idle).waiters
      rw [goto_waiters]
      exact .back s.waiters t (.inl (stage_of pc))
    next waiter unset =>
      cases moved
      change WaitList.Step s.waiters { (s.goto t (.drain waiter)).waiters with head := none }
      rw [goto_waiters]
      have head : s.waiters.head = waiter := congrArg AwaiterPtr.head unset
      subst head
      exact .detach s.waiters t (stage_of pc)
  | drain waiter =>
    cases waiter with
    | none =>
      simp only [Event.advance,pc,Option.some.injEq] at moved
      subst moved
      rw [goto_waiters]
      exact .back s.waiters t (.inr (stage_of pc))
    | some cur =>
      simp only [Event.advance,pc,Option.some.injEq] at moved
      subst moved
      rw [goto_waiters]
      exact .take s.waiters t cur (stage_of pc)
  | resume cur next =>
    simp only [Event.advance,pc,Option.some.injEq] at moved
    subst moved
    change WaitList.Step s.waiters { (s.goto t (.drain next)).waiters with queue := _, submissions := _ }
    rw [goto_waiters]
    exact .submit s.waiters t cur next (stage_of pc)

private theorem waits_step {a : Action V Coro Ctx} (moved : step s a = some s') : WaitList.Step s.waiters s'.waiters := by
  cases a with
  | step t => exact waits_advance moved
  | wait t self x =>
    simp only [Event.step] at moved
    split at moved
    next free =>
      cases moved
      change WaitList.Step s.waiters
        { (s.goto t (.registerWait self)).waiters with next := _, live := _, party := _, place := _ }
      rw [goto_waiters]
      exact .enter s.waiters t self x (stage_of free.1) free.2
    next => contradiction
  | set t value =>
    simp only [Event.step] at moved
    split at moved
    next idle =>
      cases moved
      change WaitList.Step s.waiters (s.goto t .exchange).waiters
      rw [goto_waiters]
      exact .call s.waiters t (stage_of idle)
    next => contradiction
  | spurious t =>
    simp only [Event.step] at moved
    split at moved
    next self oldValue pc =>
      cases moved
      rw [goto_waiters]
      exact .retry s.waiters t self oldValue (stage_of pc)
    next => contradiction
  | exec x =>
    simp only [Event.step] at moved
    split at moved
    next => contradiction
    next handle rest front =>
      split at moved
      next self pc =>
        cases moved
        change WaitList.Step s.waiters { (s.goto handle (.awaitResume self)).waiters with queue := _ }
        rw [goto_waiters]
        exact .pop s.waiters x handle rest self front (stage_of pc)
      next => contradiction

end

/-- Until the first `set` there is no handle in a queue, nor has a `wait` returned. -/
structure Gate (s : State V Coro Ctx) : Prop where
  unset : s.state ≠ .set → s.setter = none ∧ s.exchanges = 0 ∧ s.initialSet = false ∧ s.returned = [] ∧
    (∀ x, s.contexts.taskQueue x = []) ∧ ∀ t a, s.pc t ≠ .awaitResume a
  draining : ∀ t, (s.pc t).draining = true → s.setter = some t

omit [DecidableEq Coro] [DecidableEq Ctx] in
private theorem fresh_gate (s : State V Coro Ctx) (fresh : Fresh s) : Gate s := by
  obtain ⟨state,_,_,pc,queue,_,_,exchanges,setter,_,returned⟩ := fresh
  constructor
  case unset =>
    intro unset
    have initialSet : s.initialSet = false := by
      rw [state] at unset
      split at unset
      next => contradiction
      next initialSet => simpa using initialSet
    exact ⟨setter,exchanges,initialSet,returned,queue,by simp [pc]⟩
  case draining => simp [pc,Pc.draining]

section
variable {s s' : State V Coro Ctx} {t : Coro}

omit [DecidableEq Ctx] in
private theorem Gate.moves (h : Gate s) {q : Pc} (pc : s'.pc = Function.update s.pc t q) (setter : s'.setter = s.setter)
    (draining : q.draining = true → (s.pc t).draining = true)
    (kept : s'.state ≠ .set → s.state ≠ .set ∧ s'.exchanges = s.exchanges ∧ s'.initialSet = s.initialSet ∧
      s'.returned = s.returned ∧ s'.contexts.taskQueue = s.contexts.taskQueue ∧ ∀ a, q ≠ .awaitResume a) : Gate s' := by
  constructor
  case unset =>
    intro unset
    obtain ⟨before,exchanges,initialSet,returned,queue,awake⟩ := kept unset
    obtain ⟨none,zero,notInitial,empty,queues,resumes⟩ := h.unset before
    refine ⟨setter.trans none,exchanges.trans zero,initialSet.trans notInitial,returned.trans empty,?_,?_⟩
    · rw [queue]
      exact queues
    · intro u a
      rw [pc,Function.update_apply]
      split
      next => exact awake a
      next => exact resumes u a
  case draining =>
    intro u drains
    rw [setter]
    rw [pc,Function.update_apply] at drains
    split at drains
    next same => exact h.draining u (same ▸ draining drains)
    next => exact h.draining u drains

omit [DecidableEq Ctx] in
private theorem Gate.opened (h : Gate s) {q : Pc} (pc : s'.pc = Function.update s.pc t q) (setter : s'.setter = s.setter)
    (draining : q.draining = true → (s.pc t).draining = true) (isSet : s'.state = .set) : Gate s' :=
  h.moves pc setter draining fun unset => absurd isSet unset

omit [DecidableEq Coro] [DecidableEq Ctx] in
theorem Gate.isSet_of_draining (h : Gate s) (drains : (s.pc t).draining = true) : s.state = .set := by
  by_contra unset
  have none := (h.unset unset).1
  rw [h.draining t drains] at none
  contradiction

private theorem Gate.advance (h : Gate s) (moved : advance s t = some s') : Gate s' := by
  cases pc : s.pc t with
  | idle | suspended a => simp [Event.advance,pc] at moved
  | registerWait a =>
    simp only [Event.advance,pc,Option.some.injEq] at moved
    subst moved
    exact h.moves rfl rfl (by simp [Pc.draining]) fun unset => ⟨unset,rfl,rfl,rfl,rfl,by simp⟩
  | isSet a =>
    simp only [Event.advance,pc,Option.some.injEq] at moved
    subst moved
    refine h.moves rfl rfl (by split <;> simp [Pc.draining]) fun unset => ⟨unset,rfl,rfl,rfl,rfl,?_⟩
    change s.state ≠ .set at unset
    simp [unset]
  | loadState a =>
    simp only [Event.advance,pc] at moved
    split at moved
    next isSet =>
      cases moved
      exact h.opened rfl rfl (by simp [Pc.draining]) isSet
    next =>
      cases moved
      exact h.moves rfl rfl (by simp [Pc.draining]) fun unset => ⟨unset,rfl,rfl,rfl,rfl,by simp⟩
  | compareExchange a oldValue =>
    simp only [Event.advance,pc] at moved
    split at moved
    next same =>
      cases moved
      exact h.moves rfl rfl (by simp [Pc.draining]) fun _ => ⟨by simp [same],rfl,rfl,rfl,rfl,by simp⟩
    next =>
      cases moved
      exact h.moves rfl rfl (by simp [Pc.draining]) fun unset => ⟨unset,rfl,rfl,rfl,rfl,by simp⟩
  | awaitResume a =>
    have isSet : s.state = .set := by
      by_contra unset
      exact (h.unset unset).2.2.2.2.2 t a pc
    simp only [Event.advance,pc,Option.some.injEq] at moved
    subst moved
    exact h.opened rfl rfl (by simp [Pc.draining]) isSet
  | exchange =>
    simp only [Event.advance,pc] at moved
    split at moved
    next isSet =>
      cases moved
      exact h.opened rfl rfl (by simp [Pc.draining]) isSet
    next waiter unset =>
      cases moved
      refine ⟨fun unset => absurd rfl unset,fun u drains => ?_⟩
      simp only [State.goto,Function.update_apply] at drains
      split at drains
      next same => rw [same]
      next => simp [h.isSet_of_draining drains] at unset
  | drain waiter =>
    have drains : (s.pc t).draining = true := by rw [pc]; rfl
    cases waiter with
    | none | some cur =>
      simp only [Event.advance,pc,Option.some.injEq] at moved
      subst moved
      exact h.opened rfl rfl (fun _ => drains) (h.isSet_of_draining drains)
  | resume cur next =>
    have drains : (s.pc t).draining = true := by rw [pc]; rfl
    simp only [Event.advance,pc,Option.some.injEq] at moved
    subst moved
    exact h.opened rfl rfl (fun _ => drains) (h.isSet_of_draining drains)

private theorem Gate.step {a : Action V Coro Ctx} (h : Gate s) (moved : step s a = some s') : Gate s' := by
  cases a with
  | step t => exact h.advance moved
  | wait t self x | set t value | spurious t =>
    simp only [Event.step] at moved
    split at moved
    next =>
      cases moved
      exact h.moves rfl rfl (by simp [Pc.draining]) fun unset => ⟨unset,rfl,rfl,rfl,rfl,by simp⟩
    next => contradiction
  | exec x =>
    simp only [Event.step] at moved
    split at moved
    next => contradiction
    next handle rest front =>
      have isSet : s.state = .set := by
        by_contra unset
        simp [(h.unset unset).2.2.2.2.1 x] at front
      split at moved
      next =>
        cases moved
        exact h.opened rfl rfl (by simp [Pc.draining]) isSet
      next => contradiction

end

theorem keeps : WaitList.Keeps (machine V Coro Ctx) State.waiters := ⟨fresh_waiters,fun _ _ _ => waits_step⟩

structure Linked (s : State V Coro Ctx) : Prop where
  waiters : WaitList.Linked s.waiters
  gate : Gate s

theorem fresh_linked (s : State V Coro Ctx) (fresh : Fresh s) : Linked s := ⟨(keeps.fresh s fresh).linked,fresh_gate s fresh⟩

section
variable {s s' : State V Coro Ctx} {t : Coro}

theorem Linked.step {a : Action V Coro Ctx} (h : Linked s) (moved : step s a = some s') : Linked s' :=
  ⟨h.waiters.step (keeps.step s s' a moved),h.gate.step moved⟩

omit [DecidableEq Coro] [DecidableEq Ctx] in
theorem Linked.live (h : Linked s) {a : Addr} (here : (s.pc t).awaiter = some a) : s.live a = true :=
  h.waiters.live (t := t) (.inl ((waiter_stage _).trans here))

omit [DecidableEq Coro] [DecidableEq Ctx] in
theorem Linked.queued (h : Linked s) {x : Ctx} (member : t ∈ s.contexts.taskQueue x) :
    ∃ a, s.pc t = .suspended a ∧ s.ctx a = x := by
  obtain ⟨a,asleep,here⟩ := h.waiters.queued member
  exact ⟨a,asleep_iff.mp asleep,here⟩

omit [DecidableEq Coro] [DecidableEq Ctx] in
theorem Linked.counted (h : Linked s) (t : Coro) : (s.Waiting t → s.suspensions t = s.submissions t + 1) ∧
    (¬ s.Waiting t → s.suspensions t = s.submissions t) := by
  rw [← waits_iff]
  exact h.waiters.counted t

omit [DecidableEq Coro] [DecidableEq Ctx] in
theorem Linked.resuming (h : Linked s) {cur : Addr} {next : Option Addr} (here : s.pc t = .resume cur next) :
    s.pc (s.awaitCoro cur) = .suspended cur ∧ s.Waiting (s.awaitCoro cur) := by
  obtain ⟨asleep,waits⟩ := h.waiters.waking (stage_of here)
  exact ⟨asleep_iff.mp asleep,waits_iff.mp waits⟩

omit [DecidableEq Coro] [DecidableEq Ctx] in
theorem Linked.noneRemains (h : Linked s) (isSet : s.state = .set) (quiet : ∀ t, (s.pc t).draining = false) (t : Coro) :
    ¬ s.Waiting t := by
  rw [← waits_iff]
  exact h.waiters.none_waits (congrArg AwaiterPtr.head isSet) (fun u => detached_of_quiet (quiet u)) t

end

theorem reachable_linked (s : State V Coro Ctx) (reachable : (machine V Coro Ctx).Reachable s) : Linked s :=
  ⟨keeps.linked reachable,Machine.Within.invariant fresh_gate (fun _ _ _ before _ moved => before.step moved) reachable⟩

end TinyCoro.Event
