import TinyCoro.Comp.WaitGroup
import TinyCoro.Library.WaitList
import Mathlib.Data.Fintype.Basic

/-! Which awaiters a wait group still holds. Every suspended awaiter is in the
`state` list, in the chain some `done` has detached, or already submitted; the
list is empty once the count is zero, unless a waiter links itself too late. -/
namespace TinyCoro.WaitGroup
open Library TwoParties

variable {Coro Ctx : Type} [DecidableEq Coro] [DecidableEq Ctx]

def Pc.stage : Pc → WaitList.Stage Addr
  | .idle => .outside
  | .registerWait a | .loadCount a | .loadState a | .awaitResume a => .inside a
  | .compareExchange a head => .linking a head
  | .suspended a => .asleep a
  | .exchange => .calling
  | .drain head => .drain head
  | .resume head next => .wake head next

def State.waiters (s : State Coro Ctx) : WaitList.State Coro Ctx Addr where
  head := s.state
  next := s.next
  live := s.live
  party := s.awaitCoro
  place := s.ctx
  stage t := (s.pc t).stage
  queue := s.contexts.taskQueue
  suspensions := s.suspensions
  submissions := s.submissions

theorem outside_iff {p : Pc} : p.stage = .outside ↔ p = .idle := by
  cases p <;> simp [Pc.stage]

theorem asleep_iff {p : Pc} {a : Addr} : p.stage = .asleep a ↔ p = .suspended a := by
  cases p <;> simp [Pc.stage]

theorem waiter_stage (p : Pc) : p.stage.waiter = p.awaiter := by
  cases p <;> rfl

theorem detached_of_quiet {p : Pc} (quiet : p.draining = false) : p.stage.detached = none := by
  cases p <;> first | rfl | contradiction

section
variable {s s' : State Coro Ctx} {t : Coro}

omit [DecidableEq Coro] [DecidableEq Ctx] in
theorem waits_iff : WaitList.Waits s.waiters t ↔ s.Waiting t := by
  simp only [WaitList.Waits,State.waiters,asleep_iff,State.Waiting]

omit [DecidableEq Coro] [DecidableEq Ctx] in
theorem stage_of {p : Pc} (here : s.pc t = p) : s.waiters.stage t = p.stage := congrArg Pc.stage here

omit [DecidableEq Coro] [DecidableEq Ctx] in
private theorem fresh_waiters (s : State Coro Ctx) (fresh : Fresh s) : WaitList.Fresh s.waiters := by
  obtain ⟨_,_,empty,_,pc,queue,suspensions,submissions⟩ := fresh
  exact ⟨empty,fun t => stage_of (pc t),queue,suspensions,submissions⟩

omit [DecidableEq Ctx] in
private theorem goto_waiters (q : Pc) : (s.goto t q).waiters = s.waiters.goto t q.stage := by
  simp only [State.waiters,State.goto,WaitList.State.goto]
  congr 1
  exact Function.comp_update Pc.stage s.pc t q

omit [DecidableEq Ctx] in
private theorem stays {p q : Pc} (here : s.pc t = p) (same : q.stage = p.stage) : (s.goto t q).waiters = s.waiters := by
  rw [goto_waiters]
  exact s.waiters.goto_self t ((stage_of here).trans same.symm)

private theorem waits_advance (moved : advance s t = some s') : WaitList.Step s.waiters s'.waiters := by
  cases pc : s.pc t with
  | idle | suspended a => simp [WaitGroup.advance,pc] at moved
  | registerWait a =>
    simp only [WaitGroup.advance,pc,Option.some.injEq] at moved
    subst moved
    change WaitList.Step s.waiters (s.goto t (.loadCount a)).waiters
    rw [stays pc (by rfl)]
    exact .stay _
  | loadCount a =>
    simp only [WaitGroup.advance,pc] at moved
    split at moved
    all_goals
      cases moved
      rw [stays pc (by rfl)]
      exact .stay _
  | loadState a =>
    simp only [WaitGroup.advance,pc,Option.some.injEq] at moved
    subst moved
    change WaitList.Step s.waiters { (s.goto t (.compareExchange a s.state)).waiters with next := _ }
    rw [goto_waiters]
    exact .load s.waiters t a s.state (stage_of pc)
  | compareExchange a head =>
    simp only [WaitGroup.advance,pc] at moved
    split at moved
    next same =>
      cases moved
      change WaitList.Step s.waiters { (s.goto t (.suspended a)).waiters with head := some a, suspensions := _ }
      rw [goto_waiters]
      subst same
      exact .link s.waiters t a (stage_of pc)
    next =>
      cases moved
      rw [goto_waiters]
      exact .retry s.waiters t a head (stage_of pc)
  | awaitResume a =>
    simp only [WaitGroup.advance,pc,Option.some.injEq] at moved
    subst moved
    change WaitList.Step s.waiters { (s.goto t .idle).waiters with live := _ }
    rw [goto_waiters]
    exact .leave s.waiters t a (stage_of pc)
  | exchange =>
    simp only [WaitGroup.advance,pc,Option.some.injEq] at moved
    subst moved
    change WaitList.Step s.waiters { (s.goto t (.drain s.state)).waiters with head := none }
    rw [goto_waiters]
    exact .detach s.waiters t (stage_of pc)
  | drain head =>
    cases head with
    | none =>
      simp only [WaitGroup.advance,pc,Option.some.injEq] at moved
      subst moved
      rw [goto_waiters]
      exact .back s.waiters t (.inr (stage_of pc))
    | some cur =>
      simp only [WaitGroup.advance,pc,Option.some.injEq] at moved
      subst moved
      rw [goto_waiters]
      exact .take s.waiters t cur (stage_of pc)
  | resume head next =>
    simp only [WaitGroup.advance,pc,Option.some.injEq] at moved
    subst moved
    change WaitList.Step s.waiters { (s.goto t (.drain next)).waiters with queue := _, submissions := _ }
    rw [goto_waiters]
    exact .submit s.waiters t head next (stage_of pc)

private theorem waits_step {a : Action Coro Ctx} (moved : step s a = some s') : WaitList.Step s.waiters s'.waiters := by
  cases a with
  | step t => exact waits_advance moved
  | wait t self x =>
    simp only [WaitGroup.step] at moved
    split at moved
    next free =>
      cases moved
      change WaitList.Step s.waiters
        { (s.goto t (.registerWait self)).waiters with next := _, live := _, party := _, place := _ }
      rw [goto_waiters]
      exact .enter s.waiters t self x (stage_of free.1) free.2
    next => contradiction
  | add t count =>
    simp only [WaitGroup.step] at moved
    split at moved
    next =>
      cases moved
      exact .stay _
    next => contradiction
  | done t =>
    simp only [WaitGroup.step] at moved
    split at moved
    next idle =>
      cases moved
      by_cases one : s.count = 1
      · rw [if_pos one]
        change WaitList.Step s.waiters (s.goto t .exchange).waiters
        rw [goto_waiters]
        exact .call s.waiters t (stage_of idle)
      · rw [if_neg one]
        change WaitList.Step s.waiters (s.goto t .idle).waiters
        rw [stays idle (by rfl)]
        exact .stay _
    next => contradiction
  | spurious t =>
    simp only [WaitGroup.step] at moved
    split at moved
    next self head pc =>
      cases moved
      rw [goto_waiters]
      exact .retry s.waiters t self head (stage_of pc)
    next => contradiction
  | exec x =>
    simp only [WaitGroup.step] at moved
    split at moved
    next => contradiction
    next handle rest front =>
      split at moved
      next self pc =>
        cases moved
        change WaitList.Step s.waiters { (s.goto handle (.awaitResume self)).waiters with queue := _ }
        rw [goto_waiters]
        exact .pop s.waiters x handle rest self front (stage_of pc)
      next => contradiction

end

theorem keeps : WaitList.Keeps (machine Coro Ctx) State.waiters := ⟨fresh_waiters,fun _ _ _ => waits_step⟩

def Linked (s : State Coro Ctx) : Prop := WaitList.Linked s.waiters

section
variable {s s' : State Coro Ctx} {t : Coro}

theorem Linked.step {a : Action Coro Ctx} (h : Linked s) (moved : step s a = some s') : Linked s' :=
  WaitList.Linked.step h (keeps.step s s' a moved)

omit [DecidableEq Coro] [DecidableEq Ctx] in
theorem Linked.live (h : Linked s) {a : Addr} (here : (s.pc t).awaiter = some a) : s.live a = true :=
  WaitList.Linked.live h (t := t) (.inl ((waiter_stage _).trans here))

omit [DecidableEq Coro] [DecidableEq Ctx] in
theorem Linked.queued (h : Linked s) {x : Ctx} (member : t ∈ s.contexts.taskQueue x) :
    ∃ a, s.pc t = .suspended a ∧ s.ctx a = x := by
  obtain ⟨a,asleep,here⟩ := WaitList.Linked.queued h member
  exact ⟨a,asleep_iff.mp asleep,here⟩

omit [DecidableEq Coro] [DecidableEq Ctx] in
theorem Linked.counted (h : Linked s) (t : Coro) : (s.Waiting t → s.suspensions t = s.submissions t + 1) ∧
    (¬ s.Waiting t → s.suspensions t = s.submissions t) := by
  rw [← waits_iff]
  exact WaitList.Linked.counted h t

omit [DecidableEq Coro] [DecidableEq Ctx] in
theorem Linked.resuming (h : Linked s) {head : Addr} {next : Option Addr} (here : s.pc t = .resume head next) :
    s.pc (s.awaitCoro head) = .suspended head ∧ s.Waiting (s.awaitCoro head) := by
  obtain ⟨asleep,waits⟩ := WaitList.Linked.waking h (stage_of here)
  exact ⟨asleep_iff.mp asleep,waits_iff.mp waits⟩

omit [DecidableEq Coro] [DecidableEq Ctx] in
theorem Linked.none_waits (h : Linked s) (empty : s.state = none) (quiet : ∀ t, (s.pc t).draining = false) (t : Coro) :
    ¬ s.Waiting t := by
  rw [← waits_iff]
  exact WaitList.Linked.none_waits h empty (fun u => detached_of_quiet (quiet u)) t

end

theorem reachable_linked (s : State Coro Ctx) (reachable : (machine Coro Ctx).Reachable s) : Linked s := keeps.linked reachable

/-- Some `done` has seen the count reach zero and not yet taken the list. -/
def State.Exchanging (s : State Coro Ctx) : Prop := ∃ t, s.pc t = .exchange

def Pc.expected : Pc → Option (Option Addr)
  | .compareExchange _ head => some head
  | _ => none

/-- No waiter links itself, and no `add` brings the count to zero, once nobody
is left who would drain the list. -/
def Timely (s : State Coro Ctx) : Action Coro Ctx → Prop
  | .step t => (s.pc t).expected = some s.state → s.count ≠ 0 ∨ s.Exchanging
  | .add _ count => int32 (s.count + count) = 0 → s.state = none ∨ s.Exchanging
  | _ => True

def NonNegative (s : State Coro Ctx) (a : Action Coro Ctx) : Prop := ∀ s' ∈ step s a, 0 ≤ s'.count

/-- With the count at zero and no `done` draining, the list is empty and the
handle of every awaiter that suspended has been submitted, exactly once. -/
def LosesNoWaiter (s : State Coro Ctx) : Prop :=
  s.count = 0 → (∀ t, (s.pc t).draining = false) →
    s.state = none ∧ ∀ t, s.submissions t = s.suspensions t ∧
      ∀ a, s.pc t = .suspended a → (s.contexts.taskQueue (s.ctx a)).count t = 1

structure Drains (s : State Coro Ctx) : Prop where
  lower : -2^31 ≤ s.count
  upper : s.count < 2^31
  taken : s.count = 0 → s.state = none ∨ s.Exchanging

private theorem int32_range (n : Int) : -2^31 ≤ int32 n ∧ int32 n < 2^31 := by
  have low := Int.le_bmod (x := n) (m := 2^32) (by decide)
  have high := Int.bmod_lt (x := n) (m := 2^32) (by decide)
  unfold int32
  omega

private theorem int32_pred_zero {n : Int} (lower : -2^31 ≤ n) (upper : n < 2^31) (zero : int32 (n - 1) = 0) : n = 1 := by
  have := Int.dvd_of_bmod_eq_zero zero
  omega

omit [DecidableEq Coro] [DecidableEq Ctx] in
private theorem fresh_drains (s : State Coro Ctx) (fresh : Fresh s) : Drains s := by
  obtain ⟨low,high,empty,_⟩ := fresh
  exact ⟨by omega,high,fun _ => .inl empty⟩

section
variable {s s' : State Coro Ctx}

omit [DecidableEq Coro] [DecidableEq Ctx] in
theorem Drains.keep (h : Drains s) (t : Coro) (elsewhere : ∀ u, u ≠ t → s'.pc u = s.pc u)
    (leaves : s.pc t ≠ .exchange) (count : s'.count = s.count) (state : s'.state = s.state) : Drains s' := by
  refine ⟨count ▸ h.lower,count ▸ h.upper,?_⟩
  intro zero
  rcases h.taken (count ▸ zero) with empty | ⟨u,here⟩
  · exact .inl (state.trans empty)
  · exact .inr ⟨u,by rw [elsewhere u (by rintro rfl; exact leaves here)]; exact here⟩

theorem Drains.advance {t : Coro} (h : Drains s) (timely : Timely s (.step t))
    (moved : advance s t = some s') : Drains s' := by
  cases pc : s.pc t with
  | idle | suspended a => simp [WaitGroup.advance,pc] at moved
  | exchange =>
    simp only [WaitGroup.advance,pc,Option.some.injEq] at moved
    subst moved
    exact ⟨h.lower,h.upper,fun _ => .inl rfl⟩
  | compareExchange self head =>
    simp only [WaitGroup.advance,pc] at moved
    split at moved
    next same =>
      cases moved
      refine ⟨h.lower,h.upper,fun zero => ?_⟩
      rcases timely (by simp [pc,Pc.expected,same]) with nonzero | ⟨u,there⟩
      · exact absurd zero nonzero
      · have other : u ≠ t := by
          rintro rfl
          rw [pc] at there
          contradiction
        exact .inr ⟨u,(Function.update_of_ne other ..).trans there⟩
    next => cases moved; exact h.keep t (by simp +contextual [State.goto]) (by simp [pc]) rfl rfl
  | loadCount self =>
    simp only [WaitGroup.advance,pc] at moved
    split at moved <;> cases moved <;> exact h.keep t (by simp +contextual [State.goto]) (by simp [pc]) rfl rfl
  | drain head =>
    cases head <;> simp only [WaitGroup.advance,pc,Option.some.injEq] at moved <;> subst moved <;>
      exact h.keep t (by simp +contextual [State.goto]) (by simp [pc]) rfl rfl
  | registerWait self | loadState self | awaitResume self | resume head next =>
    simp only [WaitGroup.advance,pc,Option.some.injEq] at moved
    subst moved
    exact h.keep t (by simp +contextual [State.goto]) (by simp [pc]) rfl rfl

theorem Drains.step {a : Action Coro Ctx} (h : Drains s) (timely : Timely s a)
    (moved : step s a = some s') : Drains s' := by
  cases a with
  | step t => exact h.advance timely moved
  | add t n =>
    simp only [WaitGroup.step] at moved
    split at moved
    next =>
      cases moved
      exact ⟨(int32_range _).1,(int32_range _).2,timely⟩
    next => contradiction
  | done t =>
    simp only [WaitGroup.step] at moved
    split at moved
    next =>
      cases moved
      refine ⟨(int32_range _).1,(int32_range _).2,?_⟩
      intro zero
      have one := int32_pred_zero h.lower h.upper zero
      exact .inr ⟨t,by simp [State.goto,one]⟩
    next => contradiction
  | wait t self x =>
    simp only [WaitGroup.step] at moved
    split at moved
    next free => cases moved; exact h.keep t (by simp +contextual [State.goto]) (by simp [free]) rfl rfl
    next => contradiction
  | spurious t =>
    simp only [WaitGroup.step] at moved
    split at moved
    next here => cases moved; exact h.keep t (by simp +contextual [State.goto]) (by simp [here]) rfl rfl
    next => contradiction
  | exec x =>
    simp only [WaitGroup.step] at moved
    split at moved
    next => contradiction
    next handle rest front =>
      split at moved
      next here => cases moved; exact h.keep handle (by simp +contextual [State.goto]) (by simp [here]) rfl rfl
      next => contradiction

end

theorem timely_drains (s : State Coro Ctx) (within : (machine Coro Ctx).Within Timely s) : Drains s :=
  within.invariant fresh_drains fun _ _ _ before timely moved => before.step timely moved

/-- A timely wait group loses no waiter, whatever the number of waiters and
calls of `add` and `done`. -/
theorem timely_loses_no_waiter (s : State Coro Ctx) (within : (machine Coro Ctx).Within Timely s) :
    LosesNoWaiter s := by
  intro zero quiet
  have empty : s.state = none := by
    rcases (timely_drains s within).taken zero with empty | ⟨t,here⟩
    · exact empty
    · simpa [here,Pc.draining] using quiet t
  have linked := reachable_linked s within.reachable
  have settled := linked.none_waits empty quiet
  refine ⟨empty,fun t => ⟨((linked.counted t).2 (settled t)).symm,fun a here => ?_⟩⟩
  obtain ⟨x,member⟩ : ∃ x, t ∈ s.contexts.taskQueue x := by
    by_contra unqueued
    exact settled t ⟨⟨a,here⟩,not_exists.mp unqueued⟩
  obtain ⟨b,same,rfl⟩ := linked.queued member
  rw [here] at same
  cases same
  exact List.count_eq_one_of_mem (linked.queueNodup _) member

instance [Fintype Coro] (s : State Coro Ctx) : Decidable s.Exchanging :=
  inferInstanceAs (Decidable (∃ t, s.pc t = .exchange))

instance [Fintype Coro] (s : State Coro Ctx) : (a : Action Coro Ctx) → Decidable (Timely s a)
  | .step t => inferInstanceAs (Decidable ((s.pc t).expected = some s.state → s.count ≠ 0 ∨ s.Exchanging))
  | .add _ count => inferInstanceAs (Decidable (int32 (s.count + count) = 0 → s.state = none ∨ s.Exchanging))
  | .wait _ _ _ | .done _ | .spurious _ | .exec _ => inferInstanceAs (Decidable True)

instance (s : State Coro Ctx) (a : Action Coro Ctx) : Decidable (NonNegative s a) :=
  inferInstanceAs (Decidable (∀ s' ∈ step s a, 0 ≤ s'.count))

def single : State (Fin 2) Unit where
  count := 1
  state := none
  live := fun _ => false
  ctx := fun _ => ()
  next := fun _ => none
  awaitCoro := fun _ => 0
  pc := fun _ => .idle
  contexts := ⟨fun _ => [],fun _ => 0⟩
  suspensions := fun _ => 0
  submissions := fun _ => 0

theorem single_fresh : Fresh single := by simp [Fresh,single]

/-- The waiter links itself, and the last `done` drains the list. -/
def waitThenDone : List (Action (Fin 2) Unit) :=
  [.wait 0 0 (),.step 0,.step 0,.step 0,.step 0,.done 1,.step 1,.step 1,.step 1,.step 1]

theorem wait_then_done_loses_no_waiter : ∃ s : State (Fin 2) Unit,
    (machine (Fin 2) Unit).guardedRun Timely single waitThenDone = some s ∧
    s.count = 0 ∧ s.suspensions 0 = 1 ∧ LosesNoWaiter s := by
  have ran : (((machine (Fin 2) Unit).guardedRun Timely single waitThenDone).map
      fun s => (s.count,s.suspensions 0)) = some (0,1) := by decide
  obtain ⟨s,reached,shape⟩ := Option.map_eq_some_iff.mp ran
  simp only [Prod.mk.injEq] at shape
  refine ⟨s,reached,shape.1,shape.2,timely_loses_no_waiter s ?_⟩
  exact Machine.guardedRun_within _ _ _ _ (.start single_fresh) reached

/-- `done` drains the list between the waiter's load of the count and its compare-and-exchange. -/
def doneInBetween : List (Action (Fin 2) Unit) :=
  [.wait 0 0 (),.step 0,.step 0,.step 0,.done 1,.step 1,.step 1,.step 0]

theorem late_waiter_lost : ¬ ∀ s : State (Fin 2) Unit,
    (machine (Fin 2) Unit).Within NonNegative s → LosesNoWaiter s := by
  intro claimed
  have ran : (((machine (Fin 2) Unit).guardedRun NonNegative single doneInBetween).map
      fun s => (s.count,s.state,s.pc 0,s.pc 1)) = some (0,some 0,.suspended 0,.idle) := by decide
  obtain ⟨s,reached,shape⟩ := Option.map_eq_some_iff.mp ran
  simp only [Prod.mk.injEq] at shape
  obtain ⟨zero,linked,waiter,doner⟩ := shape
  have within := Machine.guardedRun_within _ _ _ _ (.start single_fresh) reached
  have empty := (claimed s within zero (by simp [Fin.forall_fin_two,waiter,doner,Pc.draining])).1
  simp [linked] at empty

end TinyCoro.WaitGroup
