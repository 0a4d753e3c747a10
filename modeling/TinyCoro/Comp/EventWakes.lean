import TinyCoro.Comp.EventSet

/-! An event wakes every waiter once, and not before it is set: an event that the
constructor has not set completes no wait before the first exchange. -/
namespace TinyCoro.Event
open Library

variable {V Coro Ctx : Type} [DecidableEq Coro] [DecidableEq Ctx]

/-- What `set` has stored, and what the completed waits have read. -/
structure Values (s : State V Coro Ctx) : Prop where
  called : ∀ t, s.pc t = .exchange → s.sets ≠ []
  exchanged : s.state = .set → s.initialSet = false → s.sets ≠ [] ∧ s.exchanges ≠ 0
  storage : ∀ v, s.sets = [v] → s.storage = v
  unset : s.sets = [] → s.storage = none
  returned : s.initialSet = false → ∀ v, s.sets = [v] → ∀ r ∈ s.returned, r.2 = v

omit [DecidableEq Coro] [DecidableEq Ctx] in
private theorem fresh_values (s : State V Coro Ctx) (fresh : Fresh s) : Values s := by
  obtain ⟨state,storage,live,pc,queue,suspensions,submissions,exchanges,setter,sets,returned⟩ := fresh
  constructor
  case exchanged => intro isSet notInitial; simp [state,notInitial] at isSet
  all_goals simp [pc,storage,sets,returned]

section
variable {s s' : State V Coro Ctx} {t : Coro}

omit [DecidableEq Ctx] in
/-- `exchange` is entered by `set` alone, and `m_state` changes to `this` only there. -/
theorem Values.stay (h : Values s) {q : Pc} (pc : s'.pc = Function.update s.pc t q) (other : q ≠ .exchange)
    (state : s'.state = .set → s.state = .set) (initialSet : s'.initialSet = s.initialSet) (storage : s'.storage = s.storage)
    (exchanges : s'.exchanges = s.exchanges) (sets : s'.sets = s.sets) (returned : s'.returned = s.returned) : Values s' := by
  refine ⟨?_,?_,?_,?_,?_⟩
  · intro u here
    rw [pc,Function.update_apply] at here
    rw [sets]
    split at here
    next => exact absurd here other
    next => exact h.called u here
  · rw [initialSet,sets,exchanges]
    exact fun isSet => h.exchanged (state isSet)
  · rw [sets,storage]
    exact h.storage
  · rw [sets,storage]
    exact h.unset
  · rw [initialSet,sets,returned]
    exact h.returned

theorem Values.advance (h : Values s) (moved : advance s t = some s') : Values s' := by
  cases pc : s.pc t with
  | idle | suspended a => simp [Event.advance,pc] at moved
  | isSet a =>
    simp only [Event.advance,pc,Option.some.injEq] at moved
    subst moved
    exact h.stay rfl (by split <;> simp) id rfl rfl rfl rfl rfl
  | loadState a =>
    simp only [Event.advance,pc] at moved
    split at moved <;> cases moved <;> exact h.stay rfl (by simp) id rfl rfl rfl rfl rfl
  | compareExchange a oldValue =>
    simp only [Event.advance,pc] at moved
    split at moved <;> cases moved
    · exact h.stay rfl (by simp) (by simp) rfl rfl rfl rfl rfl
    · exact h.stay rfl (by simp) id rfl rfl rfl rfl rfl
  | awaitResume a =>
    simp only [Event.advance,pc,Option.some.injEq] at moved
    subst moved
    obtain ⟨called,exchanged,stored,unset,values⟩ := h
    constructor
    case called =>
      intro u here
      simp only [State.goto,Function.update_apply] at here
      split at here
      next => contradiction
      next => exact called u here
    case returned =>
      intro notInitial v sets r member
      rcases List.mem_append.mp member with before | new
      · exact values notInitial v sets r before
      · rw [List.mem_singleton.mp new]
        exact stored v sets
    all_goals assumption
  | exchange =>
    have sets := h.called t pc
    simp only [Event.advance,pc] at moved
    obtain ⟨called,exchanged,stored,unset,values⟩ := h
    split at moved <;> cases moved
    all_goals
      constructor
      case called => exact fun _ _ => sets
      case exchanged => exact fun _ _ => ⟨sets,Nat.succ_ne_zero _⟩
      all_goals assumption
  | registerWait a | resume cur next =>
    simp only [Event.advance,pc,Option.some.injEq] at moved
    subst moved
    exact h.stay rfl (by simp) id rfl rfl rfl rfl rfl
  | drain waiter =>
    cases waiter <;> simp only [Event.advance,pc,Option.some.injEq] at moved <;> subst moved <;>
      exact h.stay rfl (by simp) id rfl rfl rfl rfl rfl

theorem Values.step {a : Action V Coro Ctx} (h : Values s) (linked : Linked s) (moved : step s a = some s') :
    Values s' := by
  cases a with
  | step t => exact h.advance moved
  | wait t self x =>
    simp only [Event.step] at moved
    split at moved
    next => cases moved; exact h.stay rfl (by simp) id rfl rfl rfl rfl rfl
    next => contradiction
  | spurious t =>
    simp only [Event.step] at moved
    split at moved
    next => cases moved; exact h.stay rfl (by simp) id rfl rfl rfl rfl rfl
    next => contradiction
  | exec x =>
    simp only [Event.step] at moved
    split at moved
    next => contradiction
    next handle rest front =>
      split at moved
      next => cases moved; exact h.stay rfl (by simp) id rfl rfl rfl rfl rfl
      next => contradiction
  | set t value =>
    obtain ⟨called,exchanged,stored,unset,values⟩ := h
    simp only [Event.step] at moved
    split at moved
    next idle =>
      cases moved
      have first : ∀ v, s.sets ++ [value] = [v] → s.sets = [] ∧ value = v := by
        intro v sets
        exact ⟨by simpa using congrArg List.dropLast sets,by simpa using congrArg List.getLast? sets⟩
      constructor
      case called => exact fun _ _ => by simp
      case exchanged => exact fun isSet notInitial => ⟨by simp,(exchanged isSet notInitial).2⟩
      case storage =>
        intro v sets
        obtain ⟨empty,rfl⟩ := first v sets
        simp [unset empty]
      case unset => simp
      case returned =>
        intro notInitial v sets r member
        have empty := (first v sets).1
        have notSet : s.state ≠ .set := fun isSet => (exchanged isSet notInitial).1 empty
        have none' : s.returned = [] := (linked.gate.unset notSet).2.2.2.1
        simp only [State.goto,none',List.not_mem_nil] at member
    next => contradiction

end

theorem reachable_values (s : State V Coro Ctx) (reachable : (machine V Coro Ctx).Reachable s) : Values s := by
  have both : Linked s ∧ Values s :=
    Machine.Within.invariant (fun s fresh => And.intro (fresh_linked s fresh) (fresh_values s fresh))
      (fun _ _ _ before _ moved => And.intro (before.1.step moved) (before.2.step before.1 moved)) reachable
  exact both.2

/-- What one step does to `m_state` and to the waiters. -/
inductive Effect (s : State V Coro Ctx) (a : Action V Coro Ctx) (s' : State V Coro Ctx) : Prop
  | quiet (state : s'.state = s.state) (setter : s'.setter = s.setter) (submissions : s'.submissions = s.submissions)
      (asleep : ∀ t b, s'.pc t = .suspended b → s.pc t = .suspended b)
  | links (t : Coro) (self : Addr) (oldValue : Option Addr) (made : a = .step t) (before : s.state = .waiting oldValue)
      (state : s'.state = .waiting (some self)) (setter : s'.setter = s.setter) (submissions : s'.submissions = s.submissions)
  | detaches (t : Coro) (made : a = .step t) (here : s.pc t = .exchange) (unset : s.state ≠ .set) (state : s'.state = .set)
      (setter : s'.setter = some t) (submissions : s'.submissions = s.submissions)
      (asleep : ∀ u b, s'.pc u = .suspended b → s.pc u = .suspended b)
  | submits (t : Coro) (cur : Addr) (next : Option Addr) (made : a = .step t) (here : s.pc t = .resume cur next)
      (state : s'.state = s.state) (setter : s'.setter = s.setter)
      (contexts : s'.contexts = s.contexts.submitTask (s.ctx cur) (s.awaitCoro cur))
      (asleep : ∀ u b, s'.pc u = .suspended b → s.pc u = .suspended b)

section
variable {s s' : State V Coro Ctx} {t : Coro}

omit [DecidableEq Ctx] in
private theorem asleep_of_update {q : Pc} (pc : s'.pc = Function.update s.pc t q) (awake : ∀ b, q ≠ .suspended b) (u : Coro) (b : Addr)
    (asleep : s'.pc u = .suspended b) : s.pc u = .suspended b := by
  rw [pc,Function.update_apply] at asleep
  split at asleep
  next => exact absurd asleep (awake b)
  next => exact asleep

private theorem effect_advance (moved : advance s t = some s') : Effect s (.step t) s' := by
  cases pc : s.pc t with
  | idle | suspended a => simp [Event.advance,pc] at moved
  | isSet a =>
    simp only [Event.advance,pc,Option.some.injEq] at moved
    subst moved
    exact .quiet rfl rfl rfl (asleep_of_update rfl (by split <;> simp))
  | loadState a =>
    simp only [Event.advance,pc] at moved
    split at moved <;> cases moved <;> exact .quiet rfl rfl rfl (asleep_of_update rfl (by simp))
  | compareExchange a oldValue =>
    simp only [Event.advance,pc] at moved
    split at moved
    next same => cases moved; exact .links t a oldValue rfl same rfl rfl rfl
    next => cases moved; exact .quiet rfl rfl rfl (asleep_of_update rfl (by simp))
  | exchange =>
    simp only [Event.advance,pc] at moved
    split at moved
    next => cases moved; exact .quiet rfl rfl rfl (asleep_of_update rfl (by simp))
    next waiter unset => cases moved; exact .detaches t rfl pc (by simp [unset]) rfl rfl rfl (asleep_of_update rfl (by simp))
  | resume cur next =>
    simp only [Event.advance,pc,Option.some.injEq] at moved
    subst moved
    exact .submits t cur next rfl pc rfl rfl rfl (asleep_of_update rfl (by simp))
  | registerWait a | awaitResume a =>
    simp only [Event.advance,pc,Option.some.injEq] at moved
    subst moved
    exact .quiet rfl rfl rfl (asleep_of_update rfl (by simp))
  | drain waiter =>
    cases waiter <;> simp only [Event.advance,pc,Option.some.injEq] at moved <;> subst moved <;>
      exact .quiet rfl rfl rfl (asleep_of_update rfl (by simp))

theorem effect_step {a : Action V Coro Ctx} (moved : step s a = some s') : Effect s a s' := by
  cases a with
  | step t => exact effect_advance moved
  | wait | set | spurious =>
    simp only [Event.step] at moved
    split at moved
    next => cases moved; exact .quiet rfl rfl rfl (asleep_of_update rfl (by simp))
    next => contradiction
  | exec x =>
    simp only [Event.step] at moved
    split at moved
    next => contradiction
    next =>
      split at moved
      next => cases moved; exact .quiet rfl rfl rfl (asleep_of_update rfl (by simp))
      next => contradiction

end

theorem stays_set {s s' : State V Coro Ctx} {a : Action V Coro Ctx} (isSet : s.state = .set) (moved : step s a = some s') :
    s'.state = .set ∧ ∀ t b, s'.pc t = .suspended b → s.pc t = .suspended b := by
  cases effect_step moved with
  | quiet state _ _ asleep => exact ⟨state.trans isSet,asleep⟩
  | links _ _ _ _ before => simp [isSet] at before
  | detaches _ _ _ unset => exact absurd isSet unset
  | submits _ _ _ _ _ state _ _ asleep => exact ⟨state.trans isSet,asleep⟩

/-- Every waiter is woken once, by the `set` that has detached it, and not before the first exchange. -/
structure WakesOnce (s : State V Coro Ctx) : Prop where
  notBefore : s.initialSet = false → s.exchanges = 0 → s.returned = [] ∧ ∀ t a, s.pc t ≠ .awaitResume a
  staysSet : s.state = .set → ∀ s' a, step s a = some s' →
    s'.state = .set ∧ ∀ t b, s'.pc t = .suspended b → s.pc t = .suspended b
  submittedOnce : ∀ t, (s.Waiting t → s.suspensions t = s.submissions t + 1) ∧
    (¬ s.Waiting t → s.suspensions t = s.submissions t)
  ownContext : ∀ t a, s.pc t = .suspended a → ¬ s.Waiting t →
    (s.contexts.taskQueue (s.ctx a)).count t = 1 ∧ ∀ x, t ∈ s.contexts.taskQueue x → x = s.ctx a
  oneSetter : ∀ s' a, step s a = some s' → s'.setter ≠ s.setter →
    s.setter = none ∧ s.state ≠ .set ∧ ∃ t, a = .step t ∧ s.pc t = .exchange ∧ s'.setter = some t
  bySetter : ∀ s' a, step s a = some s' → s'.submissions ≠ s.submissions →
    ∃ t cur next, a = .step t ∧ s.setter = some t ∧ s.pc t = .resume cur next ∧
      s.pc (s.awaitCoro cur) = .suspended cur ∧ s.Waiting (s.awaitCoro cur) ∧
      s'.contexts = s.contexts.submitTask (s.ctx cur) (s.awaitCoro cur)
  noneRemains : s.state = .set → (∀ t, (s.pc t).draining = false) → ∀ t, ¬ s.Waiting t ∧ s.submissions t = s.suspensions t
  laterSets : s.state = .set → ∀ t s', s.pc t = .exchange → step s (.step t) = some s' →
    s'.pc t = .idle ∧ s'.contexts = s.contexts ∧ s'.submissions = s.submissions
  value : s.initialSet = false → ∀ v, s.sets = [v] → ∀ r ∈ s.returned, r.2 = v

/-- Every run of any number of waiters and of calls of `set`. -/
theorem wakes_every_waiter_once (s : State V Coro Ctx) (reachable : (machine V Coro Ctx).Reachable s) : WakesOnce s := by
  have linked := reachable_linked s reachable
  have values := reachable_values s reachable
  constructor
  case notBefore =>
    intro notInitial zero
    have unset : s.state ≠ .set := fun isSet => (values.exchanged isSet notInitial).2 zero
    obtain ⟨_,_,_,none',_,noResume⟩ := linked.gate.unset unset
    exact ⟨none',noResume⟩
  case staysSet => exact fun isSet s' a => stays_set isSet
  case submittedOnce => exact linked.counted
  case ownContext =>
    intro t a asleep submitted
    obtain ⟨y,member⟩ : ∃ y, t ∈ s.contexts.taskQueue y := by
      by_contra unqueued
      exact submitted ⟨⟨a,asleep⟩,not_exists.mp unqueued⟩
    have own : ∀ x, t ∈ s.contexts.taskQueue x → x = s.ctx a := by
      intro x member
      obtain ⟨b,here,rfl⟩ := linked.queued member
      rw [asleep] at here
      cases here
      rfl
    refine ⟨List.count_eq_one_of_mem (linked.waiters.queueNodup _) ?_,own⟩
    exact own y member ▸ member
  case oneSetter =>
    intro s' a moved changed
    cases effect_step moved with
    | quiet _ setter | links _ _ _ _ _ _ setter | submits _ _ _ _ _ _ setter => exact absurd setter changed
    | detaches t made here unset _ setter => exact ⟨(linked.gate.unset unset).1,unset,t,made,here,setter⟩
  case bySetter =>
    intro s' a moved changed
    cases effect_step moved with
    | quiet _ _ submissions | links _ _ _ _ _ _ _ submissions | detaches _ _ _ _ _ _ submissions =>
      exact absurd submissions changed
    | submits t cur next made here _ _ contexts =>
      obtain ⟨asleep,waits⟩ := linked.resuming here
      exact ⟨t,cur,next,made,linked.gate.draining t (by rw [here]; rfl),here,asleep,waits,contexts⟩
  case noneRemains =>
    intro isSet quiet t
    have settled := linked.noneRemains isSet quiet t
    exact ⟨settled,((linked.counted t).2 settled).symm⟩
  case laterSets =>
    intro isSet t s' here moved
    simp only [step,advance,here,isSet,Option.some.injEq] at moved
    subst moved
    simp [State.goto]
  case value => exact values.returned

/-- A waiter links itself, is woken by the one `set` and reads its value. -/
def waitThenSet : List (Action Nat Bool Unit) :=
  [.wait false 0 (),.step false,.step false,.step false,.step false,.set true (some 7),.step true,.step true,.step true,
    .step true,.exec (),.step false]

theorem wait_then_set_wakes_once : ∃ s : State Nat Bool Unit,
    (machine Nat Bool Unit).run (initial false) waitThenSet = some s ∧
    s.returned = [(false,some 7)] ∧ s.submissions false = 1 ∧ WakesOnce s := by
  have ran : ((machine Nat Bool Unit).run (initial false) waitThenSet).map
      (fun s => (s.returned,s.submissions false)) = some ([(false,some 7)],1) := by decide
  obtain ⟨s,reached,shape⟩ := Option.map_eq_some_iff.mp ran
  simp only [Prod.mk.injEq] at shape
  refine ⟨s,reached,shape.1,shape.2,wakes_every_waiter_once s ?_⟩
  exact Machine.run_reachable _ _ _ _ (.start (initial_fresh false)) reached

/-- An event that its constructor has set, as that of a latch of count zero, lets a waiter through. -/
theorem initially_set_completes_early : ¬ ∀ s : State Nat Bool Unit,
    (machine Nat Bool Unit).Reachable s → s.exchanges = 0 → s.returned = [] := by
  intro claimed
  have ran : ((machine Nat Bool Unit).run (initial true) [.wait false 0 (),.step false,.step false,.step false]).map
      (fun s => (s.exchanges,s.returned)) = some (0,[(false,none)]) := by decide
  obtain ⟨s,reached,shape⟩ := Option.map_eq_some_iff.mp ran
  simp only [Prod.mk.injEq] at shape
  have reachable := Machine.run_reachable _ _ _ _ (.start (initial_fresh true)) reached
  simp [claimed s reachable shape.1] at shape

end TinyCoro.Event
