import TinyCoro.Comp.Latch
import TinyCoro.Comp.EventWakes
import Mathlib.Data.Fintype.Basic
import Mathlib.Data.Fintype.Card

/-! When a latch opens. Beside its state a use records how many calls of
`count_down` have subtracted and how many have returned; below half the range of
the counter's argument it opens exactly at its count. -/
namespace TinyCoro.Latch
open Library

structure Use (Coro Ctx : Type) where
  latch : State Coro Ctx
  downs : Nat
  returned : Nat

variable {Coro Ctx : Type} [DecidableEq Coro] [DecidableEq Ctx]

/-- Inside the `set` of a `count_down`. -/
def setting : Event.Pc → Bool
  | .exchange | .drain _ | .resume _ _ => true
  | _ => false

def Action.isCountDown : Action Coro Ctx → Bool
  | .countDown _ => true
  | _ => false

def returns (s s' : State Coro Ctx) : Action Coro Ctx → Bool
  | .countDown t => s'.ev.pc t == .idle
  | .step t => setting (s.ev.pc t) && s'.ev.pc t == .idle
  | _ => false

namespace Use

def step (u : Use Coro Ctx) (a : Action Coro Ctx) : Option (Use Coro Ctx) :=
  (Latch.step u.latch a).map fun latch =>
    { latch := latch
      downs := u.downs + a.isCountDown.toNat
      returned := u.returned + (returns u.latch latch a).toNat }

def Fresh (count : Nat) (u : Use Coro Ctx) : Prop :=
  Event.Fresh u.latch.ev ∧ u.latch.ev.initialSet = decide (count = 0) ∧ u.latch.count = int64 count ∧ u.downs = 0 ∧ u.returned = 0

def machine (count : Nat) (Coro Ctx : Type) [DecidableEq Coro] [DecidableEq Ctx] : Machine (Use Coro Ctx) (Action Coro Ctx) :=
  ⟨Fresh count,step⟩

/-- What the waiters see of a state: everything but who is counting down. -/
def SameForWaiters (s s' : State Coro Ctx) : Prop :=
  s'.ev.state = s.ev.state ∧ s'.ev.contexts = s.ev.contexts ∧ s'.ev.suspensions = s.ev.suspensions ∧
    s'.ev.submissions = s.ev.submissions ∧ s'.ev.next = s.ev.next ∧ s'.ev.returned = s.ev.returned

structure OpensAtCount (count : Nat) (u : Use Coro Ctx) : Prop where
  notBefore : u.latch.ev.state = .set → count ≤ u.downs
  opened : count ≤ u.returned → u.latch.ev.state = .set
  holdsBack : u.downs < count →
    u.latch.ev.returned = [] ∧ (∀ t a, u.latch.ev.pc t ≠ .awaitResume a) ∧ ∀ x, u.latch.ev.contexts.taskQueue x = []
  releasedOnce : ∀ t, (u.latch.ev.Waiting t → u.latch.ev.suspensions t = u.latch.ev.submissions t + 1) ∧
    (¬ u.latch.ev.Waiting t → u.latch.ev.suspensions t = u.latch.ev.submissions t)
  noneRemains : u.latch.ev.state = .set → (∀ t, (u.latch.ev.pc t).draining = false) → ∀ t, ¬ u.latch.ev.Waiting t
  laterCalls : u.latch.ev.state = .set → ∀ t u',
    u.step (.countDown t) = some u' ∨ u.latch.ev.pc t = .exchange ∧ u.step (.step t) = some u' →
    SameForWaiters u.latch u'.latch ∧ ∀ v, v ≠ t → u'.latch.ev.pc v = u.latch.ev.pc v

end Use

def AtMost (Coro : Type) (n : Nat) : Prop := ∀ l : List Coro, l.Nodup → l.length ≤ n

private theorem int64_pred (n : Int) : int64 (int64 n - 1) = int64 (n - 1) := Int.bmod_add_bmod ..

private theorem int64_wraps {n : Int} (low : 2^63 ≤ n) (high : n < 2^64 + 2^63) : int64 n = n - 2^64 := by
  have back : int64 n = int64 (n - 2^64) := (Int.sub_mul_bmod_self_left n (2^64) 1).symm
  rw [back,int64,Int.bmod_eq_of_le (by omega) (by omega)]

private theorem int64_eq {n : Int} (low : -2^63 ≤ n) (high : n < 2^63) : int64 n = n := Int.bmod_eq_of_le (by omega) (by omega)

section
variable {s s' : Event.State Unit Coro Ctx} {t : Coro}

omit [DecidableEq Ctx] in
private theorem exchange_of_update {q : Event.Pc} (pc : s'.pc = Function.update s.pc t q) (after : q ≠ .exchange)
    (before : s.pc t ≠ .exchange) (v : Coro) : s'.pc v = .exchange ↔ s.pc v = .exchange := by
  rw [pc]
  by_cases same : v = t
  · subst same
    rw [Function.update_self]
    exact iff_of_false after before
  · rw [Function.update_of_ne same]

private theorem advance_unset (moved : Event.advance s t = some s') (unset : s.state ≠ .set) :
    (s'.state ≠ .set ∧ s.pc t ≠ .exchange ∧ ∀ v, s'.pc v = .exchange ↔ s.pc v = .exchange) ∨
    s'.state = .set ∧ s.pc t = .exchange := by
  cases pc : s.pc t with
  | idle | suspended a => simp [Event.advance,pc] at moved
  | exchange =>
    refine .inr ⟨?_,rfl⟩
    simp only [Event.advance,pc] at moved
    split at moved <;> cases moved
    · assumption
    · rfl
  | isSet a =>
    simp only [Event.advance,pc,Option.some.injEq] at moved
    subst moved
    exact .inl ⟨unset,by simp,exchange_of_update rfl (by split <;> simp) (by simp [pc])⟩
  | loadState a =>
    simp only [Event.advance,pc] at moved
    split at moved
    next isSet => exact absurd isSet unset
    next => cases moved; exact .inl ⟨unset,by simp,exchange_of_update rfl (by simp) (by simp [pc])⟩
  | compareExchange a oldValue =>
    simp only [Event.advance,pc] at moved
    split at moved <;> cases moved
    · exact .inl ⟨by simp,by simp,exchange_of_update rfl (by simp) (by simp [pc])⟩
    · exact .inl ⟨unset,by simp,exchange_of_update rfl (by simp) (by simp [pc])⟩
  | drain waiter =>
    cases waiter <;> simp only [Event.advance,pc,Option.some.injEq] at moved <;> subst moved <;>
      exact .inl ⟨unset,by simp,exchange_of_update rfl (by simp) (by simp [pc])⟩
  | registerWait a | awaitResume a | resume cur next =>
    simp only [Event.advance,pc,Option.some.injEq] at moved
    subst moved
    exact .inl ⟨unset,by simp,exchange_of_update rfl (by simp) (by simp [pc])⟩

end

/-- The calls of `count_down` while the event is not set: `stalled` are those that will set it. -/
structure Stalls (count : Nat) (u : Use Coro Ctx) (stalled : List Coro) : Prop where
  distinct : stalled.Nodup
  member : ∀ t, t ∈ stalled ↔ u.latch.ev.pc t = .exchange
  calls : u.returned + stalled.length = u.downs
  length : stalled.length = u.downs + 1 - count
  range : u.downs ≤ count + 2^63 + 1

structure Opening (count : Nat) (u : Use Coro Ctx) : Prop where
  value : u.latch.count = int64 (count - u.downs)
  unset : u.latch.ev.state ≠ .set → ∃ stalled, Stalls count u stalled
  set : u.latch.ev.state = .set → count ≤ u.downs

omit [DecidableEq Coro] [DecidableEq Ctx] in
private theorem fresh_opening {count : Nat} (u : Use Coro Ctx) (fresh : Use.Fresh count u) : Opening count u := by
  obtain ⟨⟨state,_,_,pc,_⟩,initialSet,value,downs,returned⟩ := fresh
  constructor
  case value => simp [value,downs]
  case unset =>
    intro unset
    have positive : 0 < count := by
      rw [Nat.pos_iff_ne_zero]
      rintro rfl
      simp [state,initialSet] at unset
    exact ⟨[],List.nodup_nil,by simp [pc],by simp [returned,downs],by simp [downs]; omega,by omega⟩
  case set =>
    intro isSet
    simp [state,initialSet] at isSet
    omega

section
variable {u u' : Use Coro Ctx} {t : Coro} {count : Nat}

private theorem countDown_cases (moved : u.step (.countDown t) = some u') :
    u.latch.ev.pc t = .idle ∧ u'.downs = u.downs + 1 ∧ u'.latch.count = int64 (u.latch.count - 1) ∧
    Use.SameForWaiters u.latch u'.latch ∧
    (u.latch.count ≤ 1 ∧ u'.latch.ev.pc = Function.update u.latch.ev.pc t .exchange ∧ u'.returned = u.returned ∨
      1 < u.latch.count ∧ u'.latch.ev = u.latch.ev ∧ u'.returned = u.returned + 1) := by
  obtain ⟨latch,stepped,rfl⟩ := Option.map_eq_some_iff.mp moved
  simp only [Latch.step] at stepped
  split at stepped
  next idle =>
    split at stepped
    next last =>
      simp only [State.event,Event.step,idle,if_true,Option.map_some,Option.some.injEq] at stepped
      subst stepped
      refine ⟨idle,rfl,rfl,⟨rfl,rfl,rfl,rfl,rfl,rfl⟩,.inl ⟨last,rfl,?_⟩⟩
      simp [returns,Event.State.goto]
    next many =>
      obtain rfl := Option.some.inj stepped
      refine ⟨idle,rfl,rfl,⟨rfl,rfl,rfl,rfl,rfl,rfl⟩,.inr ⟨by omega,rfl,?_⟩⟩
      simp [returns,idle]
  next => contradiction

omit [DecidableEq Coro] [DecidableEq Ctx] in
theorem Stalls.value {stalled : List Coro} (h : Stalls count u stalled) (value : u.latch.count = int64 (count - u.downs))
    (small : count < 2^63) (few : AtMost Coro (2^63 + 2)) (idle : u.latch.ev.pc t = .idle) :
    u.downs ≤ count + 2^63 ∧ u.latch.count = count - u.downs := by
  have outside : t ∉ stalled := fun member => by simp [(h.member t).mp member] at idle
  have bound := few (t::stalled) (List.nodup_cons.mpr ⟨outside,h.distinct⟩)
  rw [List.length_cons,h.length] at bound
  have range : u.downs ≤ count + 2^63 := by omega
  exact ⟨range,value.trans (int64_eq (by omega) (by omega))⟩

theorem Opening.countDown (h : Opening count u) (small : count < 2^63) (few : AtMost Coro (2^63 + 2))
    (moved : u.step (.countDown t) = some u') : Opening count u' := by
  obtain ⟨idle,downs,value,⟨state,_⟩,outcome⟩ := countDown_cases moved
  constructor
  case value =>
    rw [value,h.value,int64_pred,downs]
    congr 1
    omega
  case set =>
    intro isSet
    have := h.set (state ▸ isSet)
    omega
  case unset =>
    intro unset
    obtain ⟨stalled,stalls⟩ := h.unset (state ▸ unset)
    obtain ⟨range,exact⟩ := stalls.value h.value small few idle
    have length := stalls.length
    have calls := stalls.calls
    rcases outcome with ⟨last,pc,returned⟩ | ⟨many,same,returned⟩
    · refine ⟨t::stalled,?_,?_,?_,?_,by omega⟩
      · exact List.nodup_cons.mpr ⟨fun member => by simp [(stalls.member t).mp member] at idle,stalls.distinct⟩
      · intro v
        rw [List.mem_cons,stalls.member,pc]
        by_cases here : v = t
        · simp [here]
        · simp [here]
      · rw [List.length_cons]
        omega
      · rw [List.length_cons]
        omega
    · refine ⟨stalled,stalls.distinct,same ▸ stalls.member,by omega,by omega,by omega⟩

private theorem event_step {a : Action Coro Ctx} (other : ∀ t, a ≠ .countDown t) (moved : u.step a = some u') :
    u'.downs = u.downs ∧ u'.latch.count = u.latch.count ∧ u'.returned = u.returned + (returns u.latch u'.latch a).toNat ∧
    ((∃ t, a = .step t ∧ Event.advance u.latch.ev t = some u'.latch.ev) ∨
      (∀ t, a ≠ .step t) ∧ u'.latch.ev.state = u.latch.ev.state ∧
        ∀ v, u'.latch.ev.pc v = .exchange ↔ u.latch.ev.pc v = .exchange) := by
  obtain ⟨latch,stepped,rfl⟩ := Option.map_eq_some_iff.mp moved
  have noDown : a.isCountDown = false := by cases a <;> simp_all [Action.isCountDown]
  have counted : latch.count = u.latch.count := by
    cases a with
    | countDown t => exact absurd rfl (other t)
    | _ =>
      obtain ⟨ev,_,rfl⟩ := Option.map_eq_some_iff.mp stepped
      rfl
  refine ⟨by simp [noDown],counted,rfl,?_⟩
  cases a with
  | countDown t => exact absurd rfl (other t)
  | step t =>
    obtain ⟨ev,inner,rfl⟩ := Option.map_eq_some_iff.mp stepped
    exact .inl ⟨t,rfl,inner⟩
  | wait t self x =>
    obtain ⟨ev,inner,rfl⟩ := Option.map_eq_some_iff.mp stepped
    simp only [Event.step] at inner
    split at inner
    next free => cases inner; exact .inr ⟨by simp,rfl,exchange_of_update rfl (by simp) (by simp [free.1])⟩
    next => contradiction
  | spurious t =>
    obtain ⟨ev,inner,rfl⟩ := Option.map_eq_some_iff.mp stepped
    simp only [Event.step] at inner
    split at inner
    next here => cases inner; exact .inr ⟨by simp,rfl,exchange_of_update rfl (by simp) (by simp [here])⟩
    next => contradiction
  | exec x =>
    obtain ⟨ev,inner,rfl⟩ := Option.map_eq_some_iff.mp stepped
    simp only [Event.step] at inner
    split at inner
    next => contradiction
    next =>
      split at inner
      next here => cases inner; exact .inr ⟨by simp,rfl,exchange_of_update rfl (by simp) (by simp [here])⟩
      next => contradiction

omit [DecidableEq Coro] [DecidableEq Ctx] in
private theorem returns_unset {s s' : State Coro Ctx} {a : Action Coro Ctx} (linked : Event.Linked s.ev) (unset : s.ev.state ≠ .set)
    (other : ∀ t, a ≠ .countDown t) (notExchange : ∀ t, a = .step t → s.ev.pc t ≠ .exchange) : returns s s' a = false := by
  cases a with
  | countDown t => exact absurd rfl (other t)
  | wait | spurious | exec => rfl
  | step t =>
    have quiet : (s.ev.pc t).draining = false := by
      by_contra drains
      exact unset (linked.gate.isSet_of_draining (by simpa using drains))
    have := notExchange t rfl
    cases pc : s.ev.pc t <;> simp_all [returns,setting,Event.Pc.draining]

theorem Opening.event (h : Opening count u) {a : Action Coro Ctx} (linked : Event.Linked u.latch.ev)
    (other : ∀ t, a ≠ .countDown t) (moved : u.step a = some u') : Opening count u' := by
  obtain ⟨downs,value,returned,outcome⟩ := event_step other moved
  have value' : u'.latch.count = int64 (count - u'.downs) := by rw [value,downs,h.value]
  by_cases isSet : u.latch.ev.state = .set
  · have stays : u'.latch.ev.state = .set := by
      rcases outcome with ⟨t,_,inner⟩ | ⟨_,state,_⟩
      · exact (Event.stays_set (a := .step t) isSet inner).1
      · exact state.trans isSet
    exact ⟨value',fun unset => absurd stays unset,fun _ => downs ▸ h.set isSet⟩
  · obtain ⟨stalled,stalls⟩ := h.unset isSet
    have waits : u'.latch.ev.state ≠ .set → (∀ t, a = .step t → u.latch.ev.pc t ≠ .exchange) →
        (∀ v, u'.latch.ev.pc v = .exchange ↔ u.latch.ev.pc v = .exchange) → Opening count u' := by
      intro unset notExchange same
      have returned : u'.returned = u.returned := by
        rw [returned,returns_unset linked isSet other notExchange]
        rfl
      refine ⟨value',fun _ => ⟨stalled,stalls.distinct,?_,?_,?_,?_⟩,fun isSet => absurd isSet unset⟩
      · exact fun v => (stalls.member v).trans (same v).symm
      · rw [returned,downs]
        exact stalls.calls
      · rw [downs]
        exact stalls.length
      · rw [downs]
        exact stalls.range
    rcases outcome with ⟨t,rfl,inner⟩ | ⟨notStep,state,same⟩
    · rcases advance_unset inner isSet with ⟨unset,notExchange,same⟩ | ⟨nowSet,exchanging⟩
      · exact waits unset (fun v made => Action.step.inj made ▸ notExchange) same
      · -- a stalled call sets the event
        have member := (stalls.member t).mpr exchanging
        have length := stalls.length
        have positive := List.length_pos_of_mem member
        exact ⟨value',fun unset => absurd nowSet unset,fun _ => by omega⟩
    · exact waits (state ▸ isSet) (fun t made => absurd made (notStep t)) same

end

theorem reachable_latch {count : Nat} (fits : count < 2^64) (u : Use Coro Ctx)
    (reachable : (Use.machine count Coro Ctx).Reachable u) : (machine Coro Ctx).Reachable u.latch := by
  refine (Use.machine count Coro Ctx).reachable_project Use.latch ?_ (fun u u' a moved => .inr ⟨a,?_⟩) reachable
  · exact fun u ⟨ev,initialSet,value,_⟩ => ⟨ev,count,fits,value,initialSet⟩
  · obtain ⟨latch,stepped,rfl⟩ := Option.map_eq_some_iff.mp moved
    exact stepped

theorem reachable_linked {count : Nat} (fits : count < 2^64) (u : Use Coro Ctx)
    (reachable : (Use.machine count Coro Ctx).Reachable u) : Event.Linked u.latch.ev :=
  Event.reachable_linked _ (reachable_event _ (reachable_latch fits u reachable))

theorem reachable_opening {count : Nat} (small : count < 2^63) (few : AtMost Coro (2^63 + 2)) (u : Use Coro Ctx)
    (reachable : (Use.machine count Coro Ctx).Reachable u) : Opening count u := by
  induction reachable with
  | start fresh => exact fresh_opening _ fresh
  | @step u u' a before _ moved ih =>
    by_cases down : ∃ t, a = .countDown t
    · obtain ⟨t,rfl⟩ := down
      exact ih.countDown small few moved
    · exact ih.event (reachable_linked (by omega) u before) (fun t made => down ⟨t,made⟩) moved

theorem reachable_zero (u : Use Coro Ctx) (reachable : (Use.machine 0 Coro Ctx).Reachable u) : u.latch.ev.state = .set := by
  induction reachable with
  | start fresh => simp [fresh.1.1,fresh.2.1]
  | @step u u' a before _ moved ih =>
    by_cases down : ∃ t, a = .countDown t
    · obtain ⟨t,rfl⟩ := down
      exact (countDown_cases moved).2.2.2.1.1.trans ih
    · obtain ⟨_,_,_,⟨t,_,inner⟩ | ⟨_,state,_⟩⟩ := event_step (fun t made => down ⟨t,made⟩) moved
      · exact (Event.stays_set (a := .step t) ih inner).1
      · exact state.trans ih

/-- A call of `count_down` on a latch that is open, up to and including its `set`. -/
theorem later_call {u u' : Use Coro Ctx} {t : Coro} (isSet : u.latch.ev.state = .set)
    (call : u.step (.countDown t) = some u' ∨ u.latch.ev.pc t = .exchange ∧ u.step (.step t) = some u') :
    Use.SameForWaiters u.latch u'.latch ∧ ∀ v, v ≠ t → u'.latch.ev.pc v = u.latch.ev.pc v := by
  rcases call with moved | ⟨here,moved⟩
  · obtain ⟨_,_,_,same,outcome⟩ := countDown_cases moved
    refine ⟨same,fun v other => ?_⟩
    rcases outcome with ⟨_,pc,_⟩ | ⟨_,ev,_⟩
    · rw [pc,Function.update_of_ne other]
    · rw [ev]
  · obtain ⟨latch,stepped,rfl⟩ := Option.map_eq_some_iff.mp moved
    simp only [Latch.step,State.event,Event.step,Event.advance,here,isSet,Option.map_some,Option.some.injEq] at stepped
    subst stepped
    exact ⟨⟨isSet.symm ▸ rfl,rfl,rfl,rfl,rfl,rfl⟩,fun v other => Function.update_of_ne other ..⟩

/-- Below half the range of its argument a latch opens at its count, whatever the
number of waiters and calls. -/
theorem opens_at_count {count : Nat} (fits : count < 2^64) (holds : count = 0 ∨ count < 2^63 ∧ AtMost Coro (2^63 + 2))
    (u : Use Coro Ctx) (reachable : (Use.machine count Coro Ctx).Reachable u) : u.OpensAtCount count := by
  have linked := reachable_linked fits u reachable
  have notBefore : u.latch.ev.state = .set → count ≤ u.downs := by
    rcases holds with rfl | ⟨small,few⟩
    · exact fun _ => Nat.zero_le _
    · exact (reachable_opening small few u reachable).set
  constructor
  case notBefore => exact notBefore
  case opened =>
    intro enough
    rcases holds with rfl | ⟨small,few⟩
    · exact reachable_zero u reachable
    · by_contra unset
      obtain ⟨stalled,stalls⟩ := (reachable_opening small few u reachable).unset unset
      have calls := stalls.calls
      have length := stalls.length
      omega
  case holdsBack =>
    intro early
    have unset : u.latch.ev.state ≠ .set := fun isSet => Nat.not_lt_of_le (notBefore isSet) early
    obtain ⟨_,_,_,returned,queues,running⟩ := linked.gate.unset unset
    exact ⟨returned,running,queues⟩
  case releasedOnce => exact linked.counted
  case noneRemains => exact fun isSet quiet => linked.noneRemains isSet quiet
  case laterCalls => exact fun isSet t u' => later_call isSet

section
variable [Inhabited Coro] [Inhabited Ctx] {count : Nat}

def Use.initial (count : Nat) : Use Coro Ctx where
  latch :=
    { ev :=
        { state := if decide (count = 0) then .set else .waiting none
          storage := none
          live := fun _ => false
          ctx := fun _ => default
          next := fun _ => none
          awaitCoro := fun _ => default
          pc := fun _ => .idle
          contexts := ⟨fun _ => [],fun _ => 0⟩
          initialSet := decide (count = 0)
          suspensions := fun _ => 0
          submissions := fun _ => 0
          exchanges := 0
          setter := none
          sets := []
          returned := [] }
      count := int64 count }
  downs := 0
  returned := 0

omit [DecidableEq Coro] [DecidableEq Ctx] in
theorem Use.initial_fresh (count : Nat) : Use.Fresh count (Use.initial count : Use Coro Ctx) := by
  simp [Use.Fresh,Use.initial,Event.Fresh]

omit [Inhabited Coro] [Inhabited Ctx] in
private theorem countDown_moves (u : Use Coro Ctx) {t : Coro} (idle : u.latch.ev.pc t = .idle) :
    ∃ u', u.step (.countDown t) = some u' := by
  simp only [Use.step,Latch.step,State.event,Event.step,idle,if_true]
  split <;> simp

variable (Coro Ctx) in
private theorem reaches_initial (positive : 0 < count) : ∃ u : Use Coro Ctx,
    (Use.machine count Coro Ctx).Reachable u ∧ u.downs = 0 ∧ u.returned = 0 ∧ u.latch.count = int64 count ∧
    u.latch.ev.state ≠ .set ∧ ∀ t, u.latch.ev.pc t = .idle := by
  refine ⟨Use.initial count,.start (Use.initial_fresh count),rfl,rfl,by simp [Use.initial],?_,fun _ => rfl⟩
  simp [Use.initial,Nat.ne_of_gt positive]

variable (Coro Ctx) in
private theorem reaches_returned (small : count < 2^63) (n : Nat) (before : n < count) : ∃ u : Use Coro Ctx,
    (Use.machine count Coro Ctx).Reachable u ∧ u.downs = n ∧ u.returned = n ∧ u.latch.count = int64 (count - n) ∧
    u.latch.ev.state ≠ .set ∧ ∀ t, u.latch.ev.pc t = .idle := by
  induction n with
  | zero =>
    obtain ⟨u,reachable,downs,returned,value,rest⟩ := reaches_initial Coro Ctx before
    exact ⟨u,reachable,downs,returned,by simpa using value,rest⟩
  | succ n ih =>
    obtain ⟨u,reachable,downs,returned,value,unset,idle⟩ := ih (Nat.lt_of_succ_lt before)
    obtain ⟨u',moved⟩ := countDown_moves u (idle default)
    obtain ⟨_,downs',value',⟨state,_⟩,⟨last,_⟩ | ⟨_,ev,returned'⟩⟩ := countDown_cases moved
    · rw [value,int64_eq (by omega) (by omega)] at last
      omega
    · refine ⟨u',.step reachable trivial moved,by omega,by omega,?_,state ▸ unset,fun t => by rw [ev]; exact idle t⟩
      rw [value',value,int64_pred]
      congr 1
      omega

variable (Ctx) in
/-- The calls from the last on, each before its `set`. -/
theorem reaches_stalled (positive : 0 < count) (small : count < 2^63) (stalled : List Coro) (distinct : stalled.Nodup)
    (few : stalled.length ≤ 2^63 + 2) : ∃ u : Use Coro Ctx,
    (Use.machine count Coro Ctx).Reachable u ∧ u.downs + 1 = count + stalled.length ∧ u.returned + 1 = count ∧
    u.latch.count = int64 (count - u.downs) ∧ u.latch.ev.state ≠ .set ∧ ∀ t, t ∉ stalled → u.latch.ev.pc t = .idle := by
  induction stalled with
  | nil =>
    obtain ⟨u,reachable,downs,returned,value,unset,idle⟩ := reaches_returned Coro Ctx small (count - 1) (by omega)
    refine ⟨u,reachable,?_,by omega,by rw [value,downs],unset,fun t _ => idle t⟩
    rw [List.length_nil]
    omega
  | cons t rest ih =>
    rw [List.length_cons] at few
    obtain ⟨u,reachable,downs,returned,value,unset,idle⟩ := ih distinct.of_cons (by omega)
    obtain ⟨u',moved⟩ := countDown_moves u (idle t (List.nodup_cons.mp distinct).1)
    obtain ⟨_,downs',value',⟨state,_⟩,⟨_,pc,returned'⟩ | ⟨many,_⟩⟩ := countDown_cases moved
    · refine ⟨u',.step reachable trivial moved,by rw [List.length_cons]; omega,by omega,?_,state ▸ unset,?_⟩
      · rw [value',value,int64_pred]
        congr 1
        omega
      · intro v outside
        rw [List.mem_cons,not_or] at outside
        rw [pc,Function.update_of_ne outside.1]
        exact idle v outside.2
    · rw [value,int64_eq (by omega) (by omega)] at many
      omega

variable (Coro Ctx) in
/-- From half the range on the first call of `count_down` opens the latch. -/
theorem opens_early (fits : count < 2^64) (large : 2^63 ≤ count) : ∃ u : Use Coro Ctx,
    (Use.machine count Coro Ctx).Reachable u ∧ u.downs = 1 ∧ u.latch.ev.state = .set := by
  have positive : 0 < count := by omega
  obtain ⟨initial,before,zero,_,value,_,idle⟩ := reaches_initial Coro Ctx positive
  obtain ⟨u,moved⟩ := countDown_moves initial (idle default)
  obtain ⟨_,downs,_,_,⟨_,pc,_⟩ | ⟨many,_⟩⟩ := countDown_cases moved
  · have reachable : (Use.machine count Coro Ctx).Reachable u := .step before trivial moved
    have here : u.latch.ev.pc default = .exchange := by rw [pc,Function.update_self]
    obtain ⟨ev,stepped,isSet⟩ : ∃ ev, Event.step u.latch.ev (.step default) = some ev ∧ ev.state = .set := by
      cases state : u.latch.ev.state <;> simp [Event.step,Event.advance,here,state,Event.State.goto]
    have moved' : u.step (.step default) = some
        ⟨{ u.latch with ev := ev },u.downs,u.returned + (returns u.latch { u.latch with ev := ev } (.step default)).toNat⟩ := by
      simp only [Use.step,Latch.step,State.event,stepped,Option.map_some,Action.isCountDown,Bool.toNat_false,Nat.add_zero]
    exact ⟨_,.step reachable trivial moved',downs.trans (congrArg (· + 1) zero),isSet⟩
  · rw [value,int64_wraps (by omega) (by omega)] at many
    omega

variable (Ctx) in
/-- With `2^63 + 3` coroutines a call can return while all that would set the event are stalled. -/
theorem returns_unopened (positive : 0 < count) (small : count < 2^63) (many : ¬ AtMost Coro (2^63 + 2)) :
    ∃ u : Use Coro Ctx, (Use.machine count Coro Ctx).Reachable u ∧ u.returned = count ∧ u.latch.ev.state ≠ .set := by
  obtain ⟨l,distinct,long⟩ : ∃ l : List Coro, l.Nodup ∧ 2^63 + 2 < l.length := by
    simpa [AtMost] using many
  obtain ⟨t,rest,rfl⟩ := List.exists_cons_of_ne_nil (List.ne_nil_of_length_pos (Nat.zero_lt_of_lt long))
  rw [List.length_cons] at long
  have shorter := distinct.of_cons.sublist (List.take_sublist (2^63 + 2) rest)
  have length : (rest.take (2^63 + 2)).length = 2^63 + 2 := by
    rw [List.length_take]
    omega
  obtain ⟨u,reachable,downs,returned,value,unset,idle⟩ :=
    reaches_stalled Ctx positive small (rest.take (2^63 + 2)) shorter (Nat.le_of_eq length)
  have outside : t ∉ rest.take (2^63 + 2) := fun member => (List.nodup_cons.mp distinct).1 (List.mem_of_mem_take member)
  obtain ⟨u',moved⟩ := countDown_moves u (idle t outside)
  have wrapped : u.latch.count = 2^63 - 1 := by
    have back : int64 (count - u.downs) = int64 (count - u.downs + 2^64) := (Int.add_mul_bmod_self_left _ (2^64) 1).symm
    rw [value,back,int64_eq (by omega) (by omega)]
    omega
  obtain ⟨_,_,_,⟨state,_⟩,⟨last,_⟩ | ⟨_,_,returned'⟩⟩ := countDown_cases moved
  · omega
  · exact ⟨u',.step reachable trivial moved,by omega,state ▸ unset⟩

/-- A latch opens exactly at its count if and only if the count fits the signed
counter, unless so many calls are under way that they wrap it around. -/
theorem opens_iff (count : Nat) (fits : count < 2^64) :
    (∀ u : Use Coro Ctx, (Use.machine count Coro Ctx).Reachable u → u.OpensAtCount count) ↔
      count = 0 ∨ count < 2^63 ∧ AtMost Coro (2^63 + 2) := by
  constructor
  · intro opens
    by_contra other
    rw [not_or,not_and_or] at other
    obtain ⟨positive,large | many⟩ := other
    · obtain ⟨u,reachable,downs,isSet⟩ := opens_early Coro Ctx fits (Nat.le_of_not_lt large)
      have := (opens u reachable).notBefore isSet
      omega
    · by_cases small : count < 2^63
      · obtain ⟨u,reachable,returned,unset⟩ := returns_unopened Ctx (Nat.pos_of_ne_zero positive) small many
        exact unset ((opens u reachable).opened (Nat.le_of_eq returned.symm))
      · obtain ⟨u,reachable,downs,isSet⟩ := opens_early Coro Ctx fits (Nat.le_of_not_lt small)
        have := (opens u reachable).notBefore isSet
        omega
  · exact fun holds u => opens_at_count fits holds u

end

/-- A latch of two, counted down by two coroutines while one of them waits. -/
def waitAndCountDown : List (Action Bool Unit) :=
  [.countDown true,.wait false 0 (),.step false,.step false,.step false,.step false,.countDown true,.step true,.step true,
    .step true,.step true]

theorem wait_and_count_down_opens : ∃ u : Use Bool Unit,
    (Use.machine 2 Bool Unit).run (Use.initial 2) waitAndCountDown = some u ∧
    u.returned = 2 ∧ u.latch.ev.submissions false = 1 ∧ u.OpensAtCount 2 := by
  have ran : ((Use.machine 2 Bool Unit).run (Use.initial 2) waitAndCountDown).map
      (fun u => (u.returned,u.latch.ev.submissions false)) = some (2,1) := by decide
  obtain ⟨u,reached,shape⟩ := Option.map_eq_some_iff.mp ran
  simp only [Prod.mk.injEq] at shape
  have few : AtMost Bool (2^63 + 2) := fun l distinct => by
    have := List.Nodup.length_le_card distinct
    simp at this
    omega
  refine ⟨u,reached,shape.1,shape.2,(opens_iff 2 (by decide)).mpr (.inr ⟨by decide,few⟩) u ?_⟩
  exact Machine.run_reachable _ _ _ _ (.start (Use.initial_fresh 2)) reached

/-- The first of `2^63` calls opens the latch. -/
theorem half_range_opens_early : ¬ ∀ u : Use Bool Unit,
    (Use.machine (2^63) Bool Unit).Reachable u → u.OpensAtCount (2^63) := by
  intro claimed
  have ran : ((Use.machine (2^63) Bool Unit).run (Use.initial (2^63)) [.countDown true,.step true]).map
      (fun u => (u.downs,u.latch.ev.state)) = some (1,.set) := by decide
  obtain ⟨u,reached,shape⟩ := Option.map_eq_some_iff.mp ran
  simp only [Prod.mk.injEq] at shape
  have reachable := Machine.run_reachable _ _ _ _ (.start (Use.initial_fresh (2^63))) reached
  have := (claimed u reachable).notBefore shape.2
  omega

end TinyCoro.Latch
