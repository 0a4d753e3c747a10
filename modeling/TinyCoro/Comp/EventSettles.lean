import TinyCoro.Library.Settling
import TinyCoro.Comp.LatchOpens

/-! The calls of an event and of a latch come to an end, in whatever order the coroutines
and the workers that resume them move; once the event is set, every `wait` returns. -/
namespace TinyCoro.Event
open Library

/-- The steps that are left at most, those for the awaiters in the lists and for further
tries of `register_awaiters` apart. -/
def Pc.effort : Pc → Nat
  | .idle => 0
  | .awaitResume _ | .resume _ _ => 1
  | .suspended _ | .drain _ => 2
  | .exchange => 3
  | .loadState _ | .compareExchange _ _ => 5
  | .isSet _ => 6
  | .registerWait _ => 7

def Pc.tries (state : AwaiterPtr) : Pc → Nat
  | .loadState _ => 1
  | .compareExchange _ oldValue => if state = .waiting oldValue then 0 else 2
  | _ => 0

variable {V Coro Ctx : Type} [DecidableEq Coro] [DecidableEq Ctx]

/-- What is left of the calls; a `set` owes every suspended coroutine a submission of its handle. -/
def State.left (B : Finset Coro) (s : State V Coro Ctx) : Nat ×ₗ Nat :=
  callsLeft Pc.effort Pc.tries B s.state s.pc fun t => s.suspensions t - s.submissions t

def GoesOn (a : Action V Coro Ctx) : Prop := (∃ t, a = .step t) ∨ ∃ x, a = .exec x

section
variable {s s' : State V Coro Ctx} {B : Finset Coro} {t : Coro}

theorem advance_left (linked : Linked s) (inside : ∀ u, s.pc u ≠ .idle → u ∈ B) (moved : advance s t = some s') :
    s'.left B < s.left B := by
  cases pc : s.pc t with
  | idle | suspended a => simp [advance,pc] at moved
  | registerWait a | awaitResume a =>
    have member := inside t (by simp [pc])
    simp only [advance,pc,Option.some.injEq] at moved
    subst moved
    exact callsLeft_alone member pc rfl (by simp [Pc.effort])
  | isSet a =>
    have member := inside t (by simp [pc])
    simp only [advance,pc,Option.some.injEq] at moved
    subst moved
    exact callsLeft_alone member pc rfl (by split <;> simp [Pc.effort])
  | loadState a =>
    have member := inside t (by simp [pc])
    simp only [advance,pc] at moved
    split at moved
    next =>
      cases moved
      exact callsLeft_alone member pc rfl (by simp [Pc.effort])
    next waiting =>
      cases moved
      exact callsLeft_try member pc rfl rfl (by simp [Pc.tries,State.goto,waiting])
  | compareExchange a oldValue =>
    have member := inside t (by simp [pc])
    simp only [advance,pc] at moved
    split at moved
    next =>
      -- one more handle is to be submitted
      cases moved
      have settled := (linked.counted t).2 (by simp [State.Waiting,pc])
      apply callsLeft_step member pc rfl
      · intro u other
        simp [State.goto,other]
      · simp [State.goto,settled,Pc.effort]
    next stale =>
      cases moved
      exact callsLeft_try member pc rfl rfl (by simp [Pc.tries,State.goto,stale])
  | exchange =>
    have member := inside t (by simp [pc])
    simp only [advance,pc] at moved
    split at moved
    all_goals
      cases moved
      exact callsLeft_alone member pc rfl (by simp [Pc.effort])
  | drain waiter =>
    have member := inside t (by simp [pc])
    cases waiter with
    | none | some cur =>
      simp only [advance,pc,Option.some.injEq] at moved
      subst moved
      exact callsLeft_alone member pc rfl (by simp [Pc.effort])
  | resume cur next =>
    have member := inside t (by simp [pc])
    simp only [advance,pc,Option.some.injEq] at moved
    subst moved
    obtain ⟨asleep,waiting⟩ := linked.resuming pc
    have waits := (linked.counted (s.awaitCoro cur)).1 waiting
    have apart : s.awaitCoro cur ≠ t := by
      intro same
      rw [same,pc] at asleep
      contradiction
    apply callsLeft_wake apart member (inside _ (by simp [asleep])) pc rfl
    · intro u other
      simp [State.goto,other]
    · simp [State.goto,waits]
    · simp [Pc.effort]

theorem exec_left (inside : ∀ u, s.pc u ≠ .idle → u ∈ B) {x : Ctx} (moved : step s (.exec x) = some s') :
    s'.left B < s.left B := by
  simp only [step] at moved
  split at moved
  next => contradiction
  next handle rest front =>
    split at moved
    next self asleep =>
      cases moved
      exact callsLeft_alone (inside handle (by simp [asleep])) asleep rfl (by simp [Pc.effort])
    next => contradiction

/-- Every step moves one coroutine, and only the calls start with an idle one. -/
theorem step_moves {a : Action V Coro Ctx} (moved : step s a = some s') :
    ∃ t p, s'.pc = Function.update s.pc t p ∧ (GoesOn a → s.pc t ≠ .idle) := by
  cases a with
  | step t =>
    refine ⟨t,s'.pc t,?_,fun _ idle => by simp [step,advance,idle] at moved⟩
    simp only [step,advance] at moved
    repeat' split at moved
    all_goals
      cases moved
      all_goals simp [State.goto]
  | wait t | set t =>
    simp only [step] at moved
    split at moved
    next => cases moved; exact ⟨t,_,rfl,fun kind => by rcases kind with ⟨_,same⟩ | ⟨_,same⟩ <;> cases same⟩
    next => contradiction
  | spurious t =>
    simp only [step] at moved
    split at moved
    next => cases moved; exact ⟨t,_,rfl,fun kind => by rcases kind with ⟨_,same⟩ | ⟨_,same⟩ <;> cases same⟩
    next => contradiction
  | exec x =>
    simp only [step] at moved
    split at moved
    next => contradiction
    next handle rest front =>
      split at moved
      next asleep => cases moved; exact ⟨handle,_,rfl,fun _ => by simp [asleep]⟩
      next => contradiction

theorem calls_end (reachable : (machine V Coro Ctx).Reachable s) : Acc (Function.swap ((machine V Coro Ctx).Moves GoesOn)) s := by
  apply Machine.ends_of_calls State.pc .idle (fun B s l => Linked s ∧ l = s.left B) _ (fun _ _ _ => step_moves) _ s
    reachable fun B => ⟨_,reachable_linked s reachable,rfl⟩
  · intro s fresh
    obtain ⟨_,_,_,pc,_⟩ := fresh
    exact pc
  · rintro B s s' a _ ⟨linked,rfl⟩ inside kind moved
    refine ⟨_,⟨linked.step moved,rfl⟩,?_⟩
    rcases kind with ⟨t,rfl⟩ | ⟨x,rfl⟩
    · exact advance_left linked inside moved
    · exact exec_left inside moved

/-- Every call has returned or suspended its coroutine and the workers have taken all
handles; at an event that is set every `wait` has returned. -/
structure AtRest (s : State V Coro Ctx) : Prop where
  rests : ∀ t, s.pc t = .idle ∨ ∃ a, s.pc t = .suspended a
  taken : ∀ x, s.contexts.taskQueue x = []
  opened : s.state = .set → ∀ t, s.pc t = .idle

theorem advance_moves (busy : s.pc t ≠ .idle) (awake : ∀ a, s.pc t ≠ .suspended a) : ∃ s', advance s t = some s' := by
  unfold advance
  cases pc : s.pc t with
  | idle => exact absurd pc busy
  | suspended a => exact absurd pc (awake a)
  | drain waiter => cases waiter <;> exact ⟨_,rfl⟩
  | _ =>
    simp only
    repeat' split
    all_goals exact ⟨_,rfl⟩

theorem settles : WaitList.Settles (machine V Coro Ctx) GoesOn State.waiters where
  goes s t busy awake := by
    obtain ⟨s',moved⟩ := advance_moves (fun idle => busy (outside_iff.mpr idle)) fun a asleep => awake a (asleep_iff.mpr asleep)
    exact ⟨s',.step t,.inl ⟨t,rfl⟩,moved⟩
  pops s x t rest a front asleep := by
    have front : s.contexts.taskQueue x = t::rest := front
    exact ⟨_,.exec x,.inr ⟨x,rfl⟩,by simp only [machine,step,front,asleep_iff.mp asleep]; rfl⟩
  only := by
    rintro s s' ⟨a,⟨t,rfl⟩ | ⟨x,rfl⟩,moved⟩
    · refine .inl ⟨t,fun outside => ?_⟩
      simp [machine,step,advance,outside_iff.mp outside] at moved
    · refine .inr ⟨x,fun taken => ?_⟩
      have taken : s.contexts.taskQueue x = [] := taken
      simp [machine,step,taken] at moved

theorem still_of_idle (idle : ∀ t, s.pc t = .idle) (taken : ∀ x, s.contexts.taskQueue x = []) (s' : State V Coro Ctx) :
    ¬ (machine V Coro Ctx).Moves GoesOn s s' := settles.still (fun t => outside_iff.mpr (idle t)) taken s'

theorem atRest_of_stuck (linked : Linked s) (stuck : ∀ s', ¬ (machine V Coro Ctx).Moves GoesOn s s') : AtRest s := by
  obtain ⟨_,_,lists⟩ := linked.waiters
  obtain ⟨rests,taken,_⟩ := settles.rests lists stuck
  have rests : ∀ t, s.pc t = .idle ∨ ∃ a, s.pc t = .suspended a := by
    intro t
    rcases rests t with outside | ⟨a,asleep⟩
    · exact .inl (outside_iff.mp outside)
    · exact .inr ⟨a,asleep_iff.mp asleep⟩
  refine ⟨rests,taken,fun isSet t => ?_⟩
  have quiet : ∀ u, (s.pc u).draining = false := by
    intro u
    rcases rests u with pc | ⟨a,pc⟩ <;> rw [pc] <;> rfl
  rcases rests t with idle | ⟨a,asleep⟩
  · exact idle
  · refine absurd ⟨⟨a,asleep⟩,fun x member => ?_⟩ (linked.noneRemains isSet quiet t)
    have empty : s.contexts.taskQueue x = [] := taken x
    simp [empty] at member

/-- The calls under way come to an end whatever the order of their steps, if only
compare-and-exchange does not fail without cause, and none is left behind. -/
theorem set_and_wait_settle (s : State V Coro Ctx) (reachable : (machine V Coro Ctx).Reachable s) :
    Acc (Function.swap ((machine V Coro Ctx).Moves GoesOn)) s ∧
      ∀ s', Relation.ReflTransGen ((machine V Coro Ctx).Moves GoesOn) s s' →
        (∀ s'', ¬ (machine V Coro Ctx).Moves GoesOn s' s'') → AtRest s' := by
  refine ⟨calls_end reachable,fun s' moves stuck => ?_⟩
  exact atRest_of_stuck (reachable_linked s' (Machine.reachable_of_moves moves reachable)) stuck

end

/-- A coroutine is suspended and another one has called `set`; it wakes the first one, which returns. -/
theorem wait_then_set_settles : ∃ s s', (machine Nat Bool Unit).run (initial false) (waitThenSet.take 6) = some s ∧
    s.pc false = .suspended 0 ∧ Acc (Function.swap ((machine Nat Bool Unit).Moves GoesOn)) s ∧
    (machine Nat Bool Unit).run s (waitThenSet.drop 6) = some s' ∧ s'.returned = [(false,some 7)] ∧ AtRest s' := by
  have ran : ((machine Nat Bool Unit).run (initial false) (waitThenSet.take 6)).bind (fun s =>
      ((machine Nat Bool Unit).run s (waitThenSet.drop 6)).map fun s' =>
        (s.pc false,s'.returned,s'.pc false,s'.pc true,s'.contexts.taskQueue ())) =
      some (.suspended 0,[(false,some 7)],.idle,.idle,[]) := by rfl
  obtain ⟨s,reached,ran⟩ := Option.bind_eq_some_iff.mp ran
  obtain ⟨s',ended,shape⟩ := Option.map_eq_some_iff.mp ran
  simp only [Prod.mk.injEq] at shape
  obtain ⟨asleep,returned,first,second,empty⟩ := shape
  obtain ⟨ends,rests⟩ := set_and_wait_settle s (Machine.run_reachable _ _ _ _ (.start (initial_fresh false)) reached)
  refine ⟨s,s',reached,asleep,ends,ended,returned,rests s' (Machine.moves_of_run ?_ ended) ?_⟩
  · simp [waitThenSet,GoesOn]
  · exact still_of_idle (Bool.forall_bool.mpr ⟨first,second⟩) fun _ => empty

end TinyCoro.Event

namespace TinyCoro.Latch
open Library

variable {Coro Ctx : Type} [DecidableEq Coro] [DecidableEq Ctx]

def GoesOn (a : Action Coro Ctx) : Prop := (∃ t, a = .step t) ∨ ∃ x, a = .exec x

namespace Use

/-- Every call has returned or suspended its coroutine, and the latch lets everybody pass
as soon as its count has been counted down. -/
structure AtRest (count : Nat) (u : Use Coro Ctx) : Prop where
  event : Event.AtRest u.latch.ev
  counted : u.latch.ev.state = .set ↔ count ≤ u.downs
  returned : u.downs < count → u.returned = u.downs

variable {u u' : Use Coro Ctx} {count : Nat}

private theorem event_moves (moves : (machine count Coro Ctx).Moves GoesOn u u') :
    (Event.machine Unit Coro Ctx).Moves Event.GoesOn u.latch.ev u'.latch.ev := by
  obtain ⟨a,kind,moved⟩ := moves
  obtain ⟨latch,stepped,rfl⟩ := Option.map_eq_some_iff.mp moved
  rcases kind with ⟨t,rfl⟩ | ⟨x,rfl⟩
  all_goals obtain ⟨ev,inner,rfl⟩ := Option.map_eq_some_iff.mp stepped
  · exact ⟨.step t,.inl ⟨t,rfl⟩,inner⟩
  · exact ⟨.exec x,.inr ⟨x,rfl⟩,inner⟩

private theorem moves_of_event {ev : Event.State Unit Coro Ctx} (moves : (Event.machine Unit Coro Ctx).Moves Event.GoesOn u.latch.ev ev) :
    ∃ u', (machine count Coro Ctx).Moves GoesOn u u' := by
  obtain ⟨a,kind,moved⟩ := moves
  rcases kind with ⟨t,rfl⟩ | ⟨x,rfl⟩
  · have stepped : Latch.step u.latch (.step t) = some { u.latch with ev := ev } := Option.map_eq_some_iff.mpr ⟨ev,moved,rfl⟩
    exact ⟨_,.step t,.inl ⟨t,rfl⟩,Option.map_eq_some_iff.mpr ⟨_,stepped,rfl⟩⟩
  · have stepped : Latch.step u.latch (.exec x) = some { u.latch with ev := ev } := Option.map_eq_some_iff.mpr ⟨ev,moved,rfl⟩
    exact ⟨_,.exec x,.inr ⟨x,rfl⟩,Option.map_eq_some_iff.mpr ⟨_,stepped,rfl⟩⟩

theorem calls_end (fits : count < 2^64) (reachable : (machine count Coro Ctx).Reachable u) :
    Acc (Function.swap ((machine count Coro Ctx).Moves GoesOn)) u := by
  have event := Event.calls_end (reachable_event _ (reachable_latch fits u reachable))
  apply Subrelation.accessible _ (InvImage.accessible (fun u : Use Coro Ctx => u.latch.ev) event)
  exact fun moves => event_moves moves

theorem atRest_of_stuck (small : count < 2^63) (few : AtMost Coro (2^63 + 2)) (reachable : (machine count Coro Ctx).Reachable u)
    (stuck : ∀ u', ¬ (machine count Coro Ctx).Moves GoesOn u u') : AtRest count u := by
  have event := Event.atRest_of_stuck (reachable_linked (by omega) u reachable) fun ev moves => by
    obtain ⟨u',moves⟩ : ∃ u', (machine count Coro Ctx).Moves GoesOn u u' := moves_of_event moves
    exact stuck u' moves
  obtain ⟨_,unset,set⟩ := reachable_opening small few u reachable
  have notStalled : ∀ stalled, Stalls count u stalled → stalled = [] := by
    intro stalled stalls
    rw [List.eq_nil_iff_forall_not_mem]
    intro t member
    have exchanging := (stalls.member t).mp member
    rcases event.rests t with pc | ⟨a,pc⟩ <;> simp [pc] at exchanging
  refine ⟨event,⟨set,?_⟩,?_⟩
  · intro enough
    by_contra closed
    obtain ⟨stalled,stalls⟩ := unset closed
    have length := stalls.length
    simp only [notStalled stalled stalls,List.length_nil] at length
    omega
  · intro missing
    obtain ⟨stalled,stalls⟩ := unset fun isSet => by
      have := set isSet
      omega
    have calls := stalls.calls
    simpa only [notStalled stalled stalls,List.length_nil,Nat.add_zero] using calls

end Use

/-- Whatever the order of steps, the calls under way come to an end; then every `wait` has
returned if `count_down` has been called as often as the latch counts. -/
theorem count_downs_settle {count : Nat} (small : count < 2^63) (few : AtMost Coro (2^63 + 2)) (u : Use Coro Ctx)
    (reachable : (Use.machine count Coro Ctx).Reachable u) :
    Acc (Function.swap ((Use.machine count Coro Ctx).Moves GoesOn)) u ∧
      ∀ u', Relation.ReflTransGen ((Use.machine count Coro Ctx).Moves GoesOn) u u' →
        (∀ u'', ¬ (Use.machine count Coro Ctx).Moves GoesOn u' u'') → u'.AtRest count := by
  refine ⟨Use.calls_end (by omega) reachable,fun u' moves stuck => ?_⟩
  exact Use.atRest_of_stuck small few (Machine.reachable_of_moves moves reachable) stuck

/-- A coroutine waits at a latch of two, and the second `count_down` is under way; it lets the waiter pass. -/
theorem second_count_down_settles : ∃ u u' : Use Bool Unit,
    (Use.machine 2 Bool Unit).run (Use.initial 2) (waitAndCountDown.take 7) = some u ∧ u.downs = 2 ∧
      u.latch.ev.pc false = .suspended 0 ∧ Acc (Function.swap ((Use.machine 2 Bool Unit).Moves GoesOn)) u ∧
      (Use.machine 2 Bool Unit).run u (waitAndCountDown.drop 7 ++ [.exec (),.step false]) = some u' ∧
      u'.latch.ev.submissions false = 1 ∧ u'.AtRest 2 := by
  have ran : ((Use.machine 2 Bool Unit).run (Use.initial 2) (waitAndCountDown.take 7)).bind (fun u =>
      ((Use.machine 2 Bool Unit).run u (waitAndCountDown.drop 7 ++ [.exec (),.step false])).map fun u' =>
        (u.downs,u.latch.ev.pc false,u'.latch.ev.submissions false,u'.latch.ev.pc false,u'.latch.ev.pc true,
          u'.latch.ev.contexts.taskQueue ())) = some (2,.suspended 0,1,.idle,.idle,[]) := by rfl
  obtain ⟨u,reached,ran⟩ := Option.bind_eq_some_iff.mp ran
  obtain ⟨u',ended,shape⟩ := Option.map_eq_some_iff.mp ran
  simp only [Prod.mk.injEq] at shape
  obtain ⟨downs,asleep,submitted,first,second,empty⟩ := shape
  have few : AtMost Bool (2^63 + 2) := fun l distinct => by
    have := List.Nodup.length_le_card distinct
    simp at this
    omega
  obtain ⟨ends,rests⟩ := count_downs_settle (by decide) few u (Machine.run_reachable _ _ _ _ (.start (Use.initial_fresh 2)) reached)
  refine ⟨u,u',reached,downs,asleep,ends,ended,submitted,rests u' (Machine.moves_of_run ?_ ended) ?_⟩
  · simp [waitAndCountDown,GoesOn]
  · exact fun u'' moves => Event.still_of_idle (Bool.forall_bool.mpr ⟨first,second⟩) (fun _ => empty) _ (Use.event_moves moves)

end TinyCoro.Latch
