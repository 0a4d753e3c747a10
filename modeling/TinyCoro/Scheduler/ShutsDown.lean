import TinyCoro.Scheduler.IoCompletes
import TinyCoro.Scheduler.Progress
import TinyCoro.Scheduler.StopDelivery
import TinyCoro.Context.Rest

/-! The scheduler shuts down: a push waits while the task queue is full, and when nothing can
move any more every submit has returned, and each worker has left or sleeps with nothing at
hand; and nobody sleeps if no wait and no io is left. -/
namespace TinyCoro.Scheduler
open Library

variable {n : Nat} {Coro Ext : Type} [DecidableEq Coro] [DecidableEq Ext]

def State.size (s : State n Coro Ext) (i : Fin n) : Nat := (s.ctxs i).taskQueue.length

variable (n Coro Ext) in
/-- The scheduler with task queues of `kQueCap` handles, where a push to a full one waits. -/
def bounded : Machine (State n Coro Ext) (Action n Coro Ext) := (machine n Coro Ext).bounded State.size Context.kQueCap

def Jammed (s : State n Coro Ext) : Prop := (machine n Coro Ext).Jammed State.size Context.kQueCap Continues s

structure Started (s : State n Coro Ext) : Prop where
  upTo : ∀ k, s.start = .spawn k ∨ s.start = .assign k → ∀ j < k, s.spawned j = true
  here : ∀ k, s.start = .assign k → s.spawned k = true
  done : s.start = .done → ∀ i, s.spawned i = true

section
variable {s s' : State n Coro Ext}

omit [DecidableEq Coro] [DecidableEq Ext] in
private theorem fresh_started (s : State n Coro Ext) (fresh : Fresh s) : Started s := by
  obtain ⟨_,_,_,_,_,start,_⟩ := fresh
  by_cases some : 0 < n
  · rw [dif_pos some] at start
    refine ⟨?_,by simp [start],by simp [start]⟩
    intro k here j less
    simp only [start,Start.spawn.injEq,reduceCtorEq,or_false] at here
    subst here
    exact absurd (Fin.lt_def.mp less) (Nat.not_lt_zero _)
  · rw [dif_neg some] at start
    exact ⟨by simp [start],by simp [start],fun _ i => absurd i.pos some⟩

theorem Started.effect {a : Action n Coro Ext} (started : Started s) (effect : Effect s a s') : Started s' := by
  obtain ⟨upTo,here,done⟩ := started
  cases effect with
  | spawn i at' =>
    refine ⟨?_,?_,by simp⟩
    · intro k now j less
      simp only [reduceCtorEq,Start.assign.injEq,false_or] at now
      subst now
      dsimp only
      rw [Function.update_of_ne (Fin.ne_of_lt less)]
      exact upTo i (.inl at') j less
    · intro k now
      simp only [Start.assign.injEq] at now
      dsimp only
      rw [now,Function.update_self]
  | assign i at' =>
    have before := upTo i (.inr at')
    have current := here i at'
    cases more : next i with
    | none =>
      refine ⟨by simp,by simp,fun _ j => ?_⟩
      have last := next_none more
      have bound := j.isLt
      by_cases same : j = i
      · rw [same]
        exact current
      · have apart : j.val ≠ i.val := fun equal => same (Fin.ext equal)
        exact before j (Fin.lt_def.mpr (by omega))
    | some k =>
      have val := next_some more
      refine ⟨?_,by simp,by simp⟩
      intro k' now j less
      simp only [Start.spawn.injEq,reduceCtorEq,or_false] at now
      subst now
      have below := Fin.lt_def.mp less
      by_cases same : j = i
      · rw [same]
        exact current
      · have apart : j.val ≠ i.val := fun equal => same (Fin.ext equal)
        exact before j (Fin.lt_def.mpr (by omega))
  | notified | unnotified => exact ⟨by simpa [State.context] using upTo,by simpa [State.context] using here,
      by simpa [State.context] using done⟩
  | _ => exact ⟨upTo,here,done⟩

theorem reachable_started (s : State n Coro Ext) (reachable : (machine n Coro Ext).Reachable s) : Started s :=
  Machine.Within.invariant fresh_started (fun _ _ _ before _ moved => before.effect (effect_step moved).2) reachable

end

/-- The worker sleeps with an empty queue and all that the kernel has accepted reaped. -/
structure Sleeps (c : Context.State Coro) : Prop where
  pc : c.pc = .waitEventfd
  efd : c.efd = 0
  queue : c.taskQueue = []
  inKernel : c.inKernel = []
  cq : c.cq = []

/-- Every submit has returned, and each worker has left or sleeps; none sleeps unless a wait
is registered or the kernel has not accepted some operation. -/
structure AtRest (s : State n Coro Ext) : Prop where
  started : s.start = .done
  submits : ∀ u, s.submits u = .idle
  contexts : ∀ i, (s.ctxs i).pc = .returned ∧ s.closed i = true ∨ Sleeps (s.ctxs i)
  leave : (∀ i, Sleeps (s.ctxs i) → (s.ctxs i).numWaitTask = 0 ∧ (s.ctxs i).sq = []) →
    ∀ i, (s.ctxs i).pc = .returned ∧ s.closed i = true

def hasLeft : Context.Pc Coro → Bool
  | .returned => true
  | _ => false

/-- A context whose worker has left plays no part any more. -/
def State.cleared (s : State n Coro Ext) : State n Coro Ext :=
  { s with ctxs := fun i =>
      if hasLeft (s.ctxs i).pc = true then
        { s.ctxs i with taskQueue := [], numWaitTask := 0, numIoWaitSubmit := 0, numIoRunning := 0, sq := [], inKernel := [], cq := [] }
      else s.ctxs i }

section
variable {s : State n Coro Ext} {i : Fin n}

omit [DecidableEq Coro] [DecidableEq Ext]

private theorem hasLeft_iff {pc : Context.Pc Coro} : hasLeft pc = true ↔ pc = .returned := by
  cases pc <;> simp [hasLeft]

private theorem cleared_left (left : (s.ctxs i).pc = .returned) : s.cleared.ctxs i =
    { s.ctxs i with taskQueue := [], numWaitTask := 0, numIoWaitSubmit := 0, numIoRunning := 0, sq := [], inKernel := [], cq := [] } :=
  if_pos (hasLeft_iff.mpr left)

private theorem cleared_here (here : (s.ctxs i).pc ≠ .returned) : s.cleared.ctxs i = s.ctxs i := if_neg (mt hasLeft_iff.mp here)

private theorem cleared_keeps {β : Type} (field : Context.State Coro → β) (same : (s.ctxs i).pc = .returned →
    field (s.cleared.ctxs i) = field (s.ctxs i)) : field (s.cleared.ctxs i) = field (s.ctxs i) := by
  by_cases left : (s.ctxs i).pc = .returned
  · exact same left
  · rw [cleared_here left]

private theorem cleared_pc : (s.cleared.ctxs i).pc = (s.ctxs i).pc :=
  cleared_keeps Context.State.pc fun left => by rw [cleared_left left]

private theorem cleared_stop : (s.cleared.ctxs i).stop = (s.ctxs i).stop :=
  cleared_keeps Context.State.stop fun left => by rw [cleared_left left]

theorem Awake.cleared (awake : Awake s) : Awake s.cleared := by
  obtain ⟨watched,within,closed⟩ := awake
  refine ⟨fun j => ?_,fun j past => cleared_pc.trans (within j past),fun j gone => cleared_pc.trans (closed j gone)⟩
  by_cases left : (s.ctxs j).pc = .returned
  · have seen := (watched j).seen
    rw [cleared_left left]
    refine ⟨⟨Int.le_refl 0,Int.le_refl 0,?_,?_,?_⟩,Int.le_refl 0,seen,?_,?_⟩
    · simp [Context.State.inFlight,left,Context.Pc.reaped]
    · simp
    · simp [left,Context.Pc.batch]
    · intro _ goes
      simp [left,goesOn] at goes
    · intro _ looks
      rcases looks with polling | past
      · simp [left,polls] at polling
      · rw [within j past] at left
        contradiction
  · rw [cleared_here left]
    exact watched j

end

section
variable [Fintype Ext] {s : State n Coro Ext} {i : Fin n}

omit [DecidableEq Coro] [DecidableEq Ext] in
private theorem fresh_poised (fresh : Fresh s) : Context.Poised (s.view i) := by
  have before := fresh_view (i := i) fresh
  have pc : (s.view i).pc = .processWork := before.pc
  have cq : (s.view i).cq = [] := before.cq
  have counters := Context.fresh_counters _ before
  refine ⟨{ counters with },⟨?_,?_⟩,?_⟩
  · simp [pc,Context.Pc.snapshot]
  · simp [cq]
  · intro left here
    simp [pc,Context.Pc.snapshot] at here

theorem within_poised (s : State n Coro Ext) (within : (machine n Coro Ext).Within FewWrites s) (i : Fin n) (open' : s.closed i = false) :
    Context.Poised (s.view i) := by
  induction within with
  | start fresh => exact fresh_poised fresh
  | step _ few moved before =>
    exact carried (fun _ _ _ poised few moved => poised.step few moved) (before (open_before moved open')) (meets_few few) moved open'

/-- A worker that is blocked at its eventfd, with no submit under way, has nothing to do. -/
theorem asleep_has_nothing (s : State n Coro Ext) (within : (machine n Coro Ext).Within FewWrites s) (open' : s.closed i = false)
    (submits : ∀ u, s.submits u = .idle) (pc : (s.ctxs i).pc = .waitEventfd) (efd : (s.ctxs i).efd = 0) :
    (s.ctxs i).taskQueue = [] ∧ (s.ctxs i).cq = [] := by
  have wakes := (within_poised s within i open').wakes
  have tasks := wakes.tasks 0 (by rw [State.view,beside,pc]; rfl)
  have completions := wakes.completions
  have waking : s.waking i = 0 := by simp [State.waking,submits,Submission.wakes]
  simp only [State.view,beside,pc,efd,waking,Context.Pc.owesWake,Context.Pc.batch,Context.cqeBits_eq,
    List.length_pos_iff] at tasks completions
  constructor
  · simpa using tasks
  · simpa using completions

omit [Fintype Ext] in
private theorem ends_start (alive : s.crashed = false) (ends : ∀ a, Continues a → step s a = none) : s.start = .done := by
  have start := ends .start trivial
  cases here : s.start with
  | done => rfl
  | spawn | assign => simp [step,act,alive,here] at start

omit [Fintype Ext] in
private theorem ends_submits (some : 0 < n) (alive : s.crashed = false) (writable : ∀ i, (s.ctxs i).canWrite Context.taskFlag)
    (ends : ∀ a, Continues a → step s a = none) (u : Submitter n Ext) : s.submits u = .idle := by
  have proceeds := ends (.proceed u) trivial
  cases here : s.submits u with
  | idle => rfl
  | load handle =>
    by_cases aborts : s.asserts = true ∧ s.stopToken = 0
    · simp [step,act,proceed,alive,here,aborts] at proceeds
    · simp [step,act,proceed,alive,here,aborts] at proceeds
  | wakeUp k =>
    by_cases closed : s.closed k = true
    · cases aborts : s.asserts <;> simp [step,act,proceed,alive,here,closed,aborts] at proceeds
    · simp [step,act,proceed,alive,here,closed,writable k] at proceeds
  | dispatch | fetchOr | fetchAdd | push => simp [step,act,proceed,alive,here,some] at proceeds

omit [Fintype Ext] in
private theorem ends_callback (alive : s.crashed = false) (writable : ∀ i, (s.ctxs i).canWrite Context.taskFlag)
    (ends : ∀ a, Continues a → step s a = none) (i : Fin n) : (s.ctxs i).pc ≠ .stopCb := by
  intro within
  have called := ends (.callback i) trivial
  simp only [step,alive,act,within,atStopCb,Bool.false_eq_true,if_false,if_true,callback] at called
  cases here : s.stopCb i with
  | fetchAnd => simp [here] at called
  | fetchSub cnt => by_cases last : s.stopToken = cnt <;> simp [here,last] at called
  | requestStop k => by_cases assigned : s.job k = true <;> simp [here,assigned] at called
  | wakeUp k =>
    have free : (s.ctxs k).canWrite 1 := by
      have room := writable k
      simp only [Context.State.canWrite,Context.taskFlag] at room ⊢
      omega
    by_cases closed : s.closed k = true
    · cases aborts : s.asserts <;> simp [here,closed,aborts] at called
    · simp [here,closed,free] at called

omit [Fintype Ext] in
private theorem ends_worker (alive : s.crashed = false) (ends : ∀ a, Continues a → step s a = none) (submits : ∀ u, s.submits u = .idle)
    (outside : (s.ctxs i).pc ≠ .stopCb) (spawned : s.spawned i = true) (open' : s.closed i = false) : ¬ Context.Goes (s.ctxs i) := by
  rintro ⟨a,kind,goes⟩
  have worked := ends (.work i a) kind
  have idle : (s.submits (.inl i)).isIdle = true := by rw [submits]; rfl
  have may : s.mayWork i a = true := by
    cases a with
    | step => simpa [State.mayWork,idle] using mt atStopCb_iff.mp outside
    | accept | coAwait | suspend => exact idle
    | post => rfl
    | _ => contradiction
  obtain ⟨c,moved⟩ := Option.isSome_iff_exists.mp goes
  simp [step,act,alive,spawned,open',may,moved] at worked

omit [Fintype Ext] in
private theorem ends_deinit (alive : s.crashed = false) (ends : ∀ a, Continues a → step s a = none) (left : (s.ctxs i).pc = .returned) :
    s.closed i = true := by
  have closes := ends (.deinit i) trivial
  by_contra open'
  simp [step,act,alive,left,open'] at closes

/-- With all workers asleep or gone, and nothing to wait for, nobody is asleep. -/
theorem nobody_sleeps (reachable : (machine n Coro Ext).Reachable s) (started : s.start = .done)
    (submits : ∀ u, s.submits u = .idle) (contexts : ∀ i, (s.ctxs i).pc ≠ .returned → Sleeps (s.ctxs i))
    (done : ∀ i, Sleeps (s.ctxs i) → (s.ctxs i).numWaitTask = 0 ∧ (s.ctxs i).sq = []) (i : Fin n) : (s.ctxs i).pc = .returned := by
  obtain ⟨awake,stopping⟩ := reachable_awake_stopping s reachable
  by_contra here
  have stopping : Stopping s.cleared := stopping.keep rfl rfl (fun _ => cleared_stop) (Int.le_refl _)
  have hangs : Hangs s.cleared := by
    refine ⟨started,⟨i,by rwa [cleared_pc]⟩,?_,?_,?_,?_,submits⟩
    · intro j awake
      rw [cleared_pc] at awake
      rw [cleared_here awake]
      exact ⟨(contexts j awake).pc,(contexts j awake).efd⟩
    all_goals
      intro j
      by_cases left : (s.ctxs j).pc = .returned
      · simp [cleared_left left,Context.State.inFlight]
      · have sleeps := contexts j left
        simp [cleared_here left,Context.State.inFlight,sleeps.queue,sleeps.inKernel,sleeps.cq,done j sleeps]
  have token := hangs.no_token awake.cleared stopping (reachable_balanced s reachable)
  have positive := stopping.positive (hangs.not_stopped awake.cleared stopping) i
  omega

private theorem atRest_of_ends (some : 0 < n) (within : (machine n Coro Ext).Within FewWrites s) (alive : s.crashed = false)
    (asserted : ∀ i j cnt, (s.ctxs i).pc ≠ .aborted j cnt) (writable : ∀ i, (s.ctxs i).canWrite Context.taskFlag)
    (ends : ∀ a, Continues a → step s a = none) : AtRest s := by
  have started := ends_start alive ends
  have submits := ends_submits some alive writable ends
  have closes := (reachable_awake_stopping s within.reachable).1.closed
  have sleeps : ∀ i, (s.ctxs i).pc ≠ .returned → Sleeps (s.ctxs i) := by
    intro i here
    have open' : s.closed i = false := by simpa using mt (closes i) here
    have outside := ends_callback alive writable ends i
    have stays := ends_worker alive ends submits outside ((reachable_started s within.reachable).done started i) open'
    have poised := within_poised s within i open'
    rcases Context.goes_of_worker (s := s.ctxs i) { poised.counters with } poised.held
      (fun _ => writable i) outside (asserted i) with left | ⟨pc,efd⟩ | goes
    · contradiction
    · obtain ⟨queue,cq⟩ := asleep_has_nothing s within open' submits pc efd
      refine ⟨pc,efd,queue,?_,cq⟩
      by_contra accepted
      exact stays (Context.goes_of_kernel accepted)
    · contradiction
  have gone : ∀ i, (s.ctxs i).pc = .returned → s.closed i = true := fun i left => ends_deinit alive ends left
  refine ⟨started,submits,fun i => ?_,fun done i => ?_⟩
  · by_cases left : (s.ctxs i).pc = .returned
    · exact .inl ⟨left,gone i left⟩
    · exact .inr (sleeps i left)
  · have left := nobody_sleeps within.reachable started submits sleeps done i
    exact ⟨left,gone i left⟩

/-- Without new work the scheduler takes finitely many steps in every order. Where it can
take no more, unless an assertion has failed, an eventfd is full or a push waits at a full
task queue, it is at rest. -/
theorem scheduler_settles (some : 0 < n) (s : State n Coro Ext) (within : (machine n Coro Ext).Within FewWrites s) :
    Acc (Function.swap ((bounded n Coro Ext).Moves Continues)) s ∧
      (s.crashed = false → (∀ i j cnt, (s.ctxs i).pc ≠ .aborted j cnt) → (∀ i, (s.ctxs i).canWrite Context.taskFlag) →
        (∀ t, ¬ (bounded n Coro Ext).Moves Continues s t) → Jammed s ∨ AtRest s) := by
  refine ⟨Machine.bounded_ends (steps_end s within.reachable),fun alive asserted writable stuck => ?_⟩
  refine (Machine.bounded_stuck stuck).imp_right fun still => atRest_of_ends some within alive asserted writable fun a kind => ?_
  by_contra moves
  obtain ⟨t,moved⟩ := Option.ne_none_iff_exists'.mp moves
  exact still t ⟨a,kind,moved⟩

end

theorem ends_of_left {s : State n Coro Ext} (started : s.start = .done) (submits : ∀ u, s.submits u = .idle)
    (left : ∀ i, (s.ctxs i).pc = .returned) (closed : ∀ i, s.closed i = true) (a : Action n Coro Ext) (kind : Continues a) :
    step s a = none := by
  unfold step
  split
  next => rfl
  next =>
    cases a with
    | start => simp [act,started]
    | work i b => simp [act,closed i]
    | wait | submit | resume => contradiction
    | proceed u => simp [act,proceed,submits u]
    | callback i => simp [act,left i,atStopCb]
    | deinit i => simp [act,left i,closed i]

instance (s : State n Coro Ext) : (a : Action n Coro Ext) → Decidable (FewWrites s a)
  | .work i a => inferInstanceAs (Decidable (Context.FewWrites (s.ctxs i) a))
  | .callback w => inferInstanceAs (Decidable (∀ i ∈ (s.stopCb w).writes, Context.FewWrites (s.ctxs i) .stopWake))
  | .start | .wait _ _ | .submit _ _ | .resume _ _ _ | .proceed _ | .deinit _ => inferInstanceAs (Decidable True)

theorem connect_then_leave_settles : ∃ s : State 1 Nat Empty,
    (machine 1 Nat Empty).guardedRun FewWrites (initial 1 Empty 0 fun _ => [5]) (connectThenLeave 0 ++ [.deinit 0]) = some s ∧
    s.stops = 1 ∧ AtRest s ∧ Acc (Function.swap ((bounded 1 Nat Empty).Moves Continues)) (initial 1 Empty 0 fun _ => [5]) := by
  have ran : ((machine 1 Nat Empty).guardedRun FewWrites (initial 1 Empty 0 fun _ => [5]) (connectThenLeave 0 ++ [.deinit 0])).map
      (fun s => (s.start,s.submits (.inl 0),(s.ctxs 0).pc,s.closed 0,s.crashed,(s.ctxs 0).efd,s.stops)) =
      some (.done,.idle,.returned,true,false,0,1) := by rfl
  obtain ⟨s,reached,shape⟩ := Option.map_eq_some_iff.mp ran
  simp only [Prod.mk.injEq] at shape
  obtain ⟨started,submits,left,closed,alive,efd,stops⟩ := shape
  have start : (machine 1 Nat Empty).Within FewWrites (initial 1 Empty 0 fun _ => [5]) := .start (initial_fresh _ _)
  have within := Machine.guardedRun_within _ _ _ _ start reached
  have only : ∀ i : Fin 1, i = 0 := fun i => Subsingleton.elim i 0
  have submits : ∀ u, s.submits u = .idle := by
    rintro (i | e)
    · rw [only i]
      exact submits
    · exact e.elim
  have still := ends_of_left started submits (fun i => only i ▸ left) fun i => only i ▸ closed
  have still : ∀ t, ¬ (machine 1 Nat Empty).Moves Continues s t := by
    rintro t ⟨a,kind,moved⟩
    simp [machine,still a kind] at moved
  have rests := (scheduler_settles Nat.one_pos s within).2 alive ?_ ?_ ?_
  · exact ⟨s,reached,stops,rests.resolve_left (Machine.not_jammed still),(scheduler_settles Nat.one_pos _ start).1⟩
  · intro i j cnt
    simp [only i,left]
  · intro i
    rw [only i,Context.State.canWrite,efd]
    decide
  · exact fun t moves => still t (Machine.moves_of_bounded moves)

end TinyCoro.Scheduler
