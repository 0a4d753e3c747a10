import TinyCoro.Library.Settling
import TinyCoro.Comp.WaitGroupDrain

/-! The calls of a wait group come to an end, in whatever order its coroutines and the
workers that resume them move; who then still waits is in the list of `m_state`. -/
namespace TinyCoro.WaitGroup
open Library TwoParties

/-- The steps that are left at most, those for the awaiters in the lists and for further
tries of `await_suspend` apart. -/
def Pc.effort : Pc → Nat
  | .idle => 0
  | .awaitResume _ | .resume _ _ => 1
  | .suspended _ | .drain _ => 2
  | .exchange => 3
  | .loadCount _ | .loadState _ | .compareExchange _ _ => 5
  | .registerWait _ => 6

def Pc.tries (state : Option Addr) : Pc → Nat
  | .loadState _ => 1
  | .loadCount _ => 2
  | .compareExchange _ head => if state = head then 0 else 3
  | _ => 0

variable {Coro Ctx : Type} [DecidableEq Coro] [DecidableEq Ctx]

/-- What is left of the calls; a `done` owes every suspended coroutine a submission of its handle. -/
def State.left (B : Finset Coro) (s : State Coro Ctx) : Nat ×ₗ Nat :=
  callsLeft Pc.effort Pc.tries B s.state s.pc fun t => s.suspensions t - s.submissions t

def GoesOn (a : Action Coro Ctx) : Prop := (∃ t, a = .step t) ∨ ∃ x, a = .exec x

section
variable {s s' : State Coro Ctx} {B : Finset Coro} {t : Coro}

theorem advance_left (linked : Linked s) (inside : ∀ u, s.pc u ≠ .idle → u ∈ B) (moved : advance s t = some s') :
    s'.left B < s.left B := by
  cases pc : s.pc t with
  | idle | suspended a => simp [advance,pc] at moved
  | registerWait a | awaitResume a | exchange =>
    have member := inside t (by simp [pc])
    simp only [advance,pc,Option.some.injEq] at moved
    subst moved
    exact callsLeft_alone member pc rfl (by simp [Pc.effort])
  | loadCount a =>
    have member := inside t (by simp [pc])
    simp only [advance,pc] at moved
    split at moved
    next =>
      cases moved
      exact callsLeft_alone member pc rfl (by simp [Pc.effort])
    next =>
      cases moved
      exact callsLeft_try member pc rfl rfl (by simp [Pc.tries])
  | loadState a =>
    have member := inside t (by simp [pc])
    simp only [advance,pc,Option.some.injEq] at moved
    subst moved
    exact callsLeft_try member pc rfl rfl (by simp [Pc.tries,State.goto])
  | compareExchange a head =>
    have member := inside t (by simp [pc])
    simp only [advance,pc] at moved
    split at moved
    next =>
      -- one more handle is to be submitted
      cases moved
      have settled := (linked.counted t).2 (by simp [State.Waiting,pc])
      apply callsLeft_step member pc rfl
      · intro u other
        simp [State.goto,other]
      · simp [State.goto,settled,Pc.effort]
    next stale =>
      cases moved
      exact callsLeft_try member pc rfl rfl (by simp [Pc.tries,State.goto,stale])
  | drain head =>
    have member := inside t (by simp [pc])
    cases head with
    | none | some cur =>
      simp only [advance,pc,Option.some.injEq] at moved
      subst moved
      exact callsLeft_alone member pc rfl (by simp [Pc.effort])
  | resume cur next =>
    have member := inside t (by simp [pc])
    simp only [advance,pc,Option.some.injEq] at moved
    subst moved
    obtain ⟨asleep,waiting⟩ := linked.resuming pc
    have waits := (linked.counted (s.awaitCoro cur)).1 waiting
    have apart : s.awaitCoro cur ≠ t := by
      intro same
      rw [same,pc] at asleep
      contradiction
    apply callsLeft_wake apart member (inside _ (by simp [asleep])) pc rfl
    · intro u other
      simp [State.goto,other]
    · simp [State.goto,waits]
    · simp [Pc.effort]

theorem exec_left (inside : ∀ u, s.pc u ≠ .idle → u ∈ B) {x : Ctx} (moved : step s (.exec x) = some s') :
    s'.left B < s.left B := by
  simp only [step] at moved
  split at moved
  next => contradiction
  next handle rest front =>
    split at moved
    next self asleep =>
      cases moved
      exact callsLeft_alone (inside handle (by simp [asleep])) asleep rfl (by simp [Pc.effort])
    next => contradiction

/-- Every step moves one coroutine, and only the calls start with an idle one. -/
theorem step_moves {a : Action Coro Ctx} (moved : step s a = some s') :
    ∃ t p, s'.pc = Function.update s.pc t p ∧ (GoesOn a → s.pc t ≠ .idle) := by
  cases a with
  | step t =>
    refine ⟨t,s'.pc t,?_,fun _ idle => by simp [step,advance,idle] at moved⟩
    simp only [step,advance] at moved
    repeat' split at moved
    all_goals
      cases moved
      all_goals simp [State.goto]
  | add t count =>
    simp only [step] at moved
    split at moved
    next => cases moved; exact ⟨t,s.pc t,by simp,fun kind => by rcases kind with ⟨_,same⟩ | ⟨_,same⟩ <;> cases same⟩
    next => contradiction
  | wait t | done t | spurious t =>
    simp only [step] at moved
    split at moved
    next => cases moved; exact ⟨t,_,rfl,fun kind => by rcases kind with ⟨_,same⟩ | ⟨_,same⟩ <;> cases same⟩
    next => contradiction
  | exec x =>
    simp only [step] at moved
    split at moved
    next => contradiction
    next handle rest front =>
      split at moved
      next asleep => cases moved; exact ⟨handle,_,rfl,fun _ => by simp [asleep]⟩
      next => contradiction

theorem calls_end (reachable : (machine Coro Ctx).Reachable s) : Acc (Function.swap ((machine Coro Ctx).Moves GoesOn)) s := by
  apply Machine.ends_of_calls State.pc .idle (fun B s l => Linked s ∧ l = s.left B) _ (fun _ _ _ => step_moves) _ s
    reachable fun B => ⟨_,reachable_linked s reachable,rfl⟩
  · intro s fresh
    obtain ⟨_,_,_,_,pc,_⟩ := fresh
    exact pc
  · rintro B s s' a _ ⟨linked,rfl⟩ inside kind moved
    refine ⟨_,⟨linked.step moved,rfl⟩,?_⟩
    rcases kind with ⟨t,rfl⟩ | ⟨x,rfl⟩
    · exact advance_left linked inside moved
    · exact exec_left inside moved

/-- Every call has returned or suspended its coroutine and the workers have taken all
handles; the awaiters of those that still wait make up the list of `m_state`. -/
structure AtRest (s : State Coro Ctx) : Prop where
  rests : ∀ t, s.pc t = .idle ∨ ∃ a, s.pc t = .suspended a
  taken : ∀ x, s.contexts.taskQueue x = []
  listed : ∃ waiters, Chain s.next s.state waiters ∧ ∀ a, a ∈ waiters ↔ ∃ t, s.pc t = .suspended a

theorem advance_moves (busy : s.pc t ≠ .idle) (awake : ∀ a, s.pc t ≠ .suspended a) : ∃ s', advance s t = some s' := by
  unfold advance
  cases pc : s.pc t with
  | idle => exact absurd pc busy
  | suspended a => exact absurd pc (awake a)
  | drain head => cases head <;> exact ⟨_,rfl⟩
  | _ =>
    simp only
    repeat' split
    all_goals exact ⟨_,rfl⟩

theorem settles : WaitList.Settles (machine Coro Ctx) GoesOn State.waiters where
  goes s t busy awake := by
    obtain ⟨s',moved⟩ := advance_moves (fun idle => busy (outside_iff.mpr idle)) fun a asleep => awake a (asleep_iff.mpr asleep)
    exact ⟨s',.step t,.inl ⟨t,rfl⟩,moved⟩
  pops s x t rest a front asleep := by
    have front : s.contexts.taskQueue x = t::rest := front
    exact ⟨_,.exec x,.inr ⟨x,rfl⟩,by simp only [machine,step,front,asleep_iff.mp asleep]; rfl⟩
  only := by
    rintro s s' ⟨a,⟨t,rfl⟩ | ⟨x,rfl⟩,moved⟩
    · refine .inl ⟨t,fun outside => ?_⟩
      simp [machine,step,advance,outside_iff.mp outside] at moved
    · refine .inr ⟨x,fun taken => ?_⟩
      have taken : s.contexts.taskQueue x = [] := taken
      simp [machine,step,taken] at moved

theorem atRest_of_stuck (linked : Linked s) (stuck : ∀ s', ¬ (machine Coro Ctx).Moves GoesOn s s') : AtRest s := by
  obtain ⟨waiters,_,lists⟩ := linked
  obtain ⟨rests,taken,listed⟩ := settles.rests lists stuck
  refine ⟨fun t => ?_,taken,waiters,lists.chain,fun a => ?_⟩
  · rcases rests t with outside | ⟨a,asleep⟩
    · exact .inl (outside_iff.mp outside)
    · exact .inr ⟨a,asleep_iff.mp asleep⟩
  · rw [listed]
    simp only [State.waiters,asleep_iff]

end

end TinyCoro.WaitGroup
