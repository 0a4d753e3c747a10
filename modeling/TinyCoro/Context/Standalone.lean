import TinyCoro.Context.Wakeup

/-! A context without a scheduler. Its default stop callback requests the stop of
its own thread and writes nothing to the eventfd, so that the worker sleeps for
ever if no earlier wake-up is left. -/
namespace TinyCoro.Context
open Library

variable {Coro : Type} [DecidableEq Coro]

/-- The worker's step with the default `m_stop_cb`. -/
def advanceAlone (s : State Coro) : Option (State Coro) :=
  match s.pc with
  | .stopCb => (advance s).map fun t => { t with stop := true }
  | _ => advance s

/-- Nobody calls `notify_stop`, and coroutines of this context change its count of
waits only while they run; a `cv_awaiter` that another thread sends back adds 0. -/
def stepAlone (s : State Coro) : Action Coro → Option (State Coro)
  | .step => advanceAlone s
  | .requestStop | .stopWake => none
  | .registerWait cnt =>
    match s.pc with
    | .running _ _ => step s (.registerWait cnt)
    | _ => if cnt = 0 then step s (.registerWait cnt) else none
  | a => step s a

/-- Before `start`; what was submitted before is pushed first. -/
def Alone (s : State Coro) : Prop := Fresh s ∧ s.taskQueue = []

def standalone (Coro : Type) [DecidableEq Coro] : Machine (State Coro) (Action Coro) := ⟨Alone,stepAlone⟩

/-- The worker is blocked with its stop requested and nothing left to do. -/
def Asleep (s : State Coro) : Prop :=
  s.pc = .waitEventfd ∧ s.efd = 0 ∧ s.stop = true ∧ s.taskQueue = [] ∧ s.numWaitTask = 0 ∧ s.emptyIo = true ∧ s.waking = 0

def Pc.callback : Pc Coro → Bool
  | .stopCb => true
  | _ => false

/-- The default callback runs with a wake-up in the eventfd or about to be written. -/
def CallbackWoken (s : State Coro) : Action Coro → Prop
  | .step => s.pc.callback = true → 0 < s.efd ∨ 0 < s.waking
  | _ => True

/-- From the decision to go on to the read of the eventfd. -/
def Pc.polls : Pc Coro → Bool
  | .stopNotRequested | .doIoSubmit | .ioSubmitted | .waitEventfd => true
  | _ => false

/-- Where the worker comes only without having seen its stop requested. -/
def Pc.unstopped : Pc Coro → Bool
  | .idleWaitWork | .notReady | .stopCb => true
  | _ => false

/-- A reason to go on: a wake-up, a wait or an operation. -/
def State.awaits (s : State Coro) : Prop := 0 < s.efd ∨ 0 < s.waking ∨ s.numWaitTask ≠ 0 ∨ s.emptyIo = false

structure Awake (s : State Coro) : Prop where
  counters : Counters s
  polls : s.stop = true → s.pc.polls = true → s.awaits
  unstopped : s.stop = true → s.pc.unstopped = false

omit [DecidableEq Coro] in
private theorem alone_awake (s : State Coro) (alone : Alone s) : Awake s := by
  have stop : s.stop = false := alone.1.stop
  exact ⟨fresh_counters s alone.1,by simp [stop],by simp [stop]⟩

private theorem step_of_stepAlone {s s' : State Coro} {a : Action Coro} (moved : stepAlone s a = some s') :
    ∃ t, step s a = some t ∧ (s' = t ∧ (s.pc = .stopCb → a ≠ .step) ∨ s.pc = .stopCb ∧ a = .step ∧ s' = { t with stop := true }) := by
  unfold stepAlone at moved
  split at moved
  next =>
    unfold advanceAlone at moved
    split at moved
    next pc =>
      obtain ⟨t,stepped,rfl⟩ := Option.map_eq_some_iff.mp moved
      exact ⟨t,stepped,.inr ⟨pc,rfl,rfl⟩⟩
    next other => exact ⟨s',moved,.inl ⟨rfl,fun pc => absurd pc other⟩⟩
  next => contradiction
  next => contradiction
  next cnt =>
    split at moved
    next => exact ⟨s',moved,.inl ⟨rfl,by simp⟩⟩
    next =>
      split at moved
      next => exact ⟨s',moved,.inl ⟨rfl,by simp⟩⟩
      next => contradiction
  next other _ _ _ => exact ⟨s',moved,.inl ⟨rfl,fun _ => other⟩⟩

omit [DecidableEq Coro] in
/-- A step that keeps the reasons to go on, or finds one. -/
theorem Awake.goto {s s' : State Coro} (awake : Awake s) (stop : s'.stop = s.stop)
    (polls : s'.pc.polls = true → s.stop = true → s'.awaits ∨ s.pc.polls = true ∧ (s.awaits → s'.awaits))
    (unstopped : s'.pc.unstopped = true → s.stop = false) :
    (s'.stop = true → s'.pc.polls = true → s'.awaits) ∧ (s'.stop = true → s'.pc.unstopped = false) := by
  rw [stop]
  constructor
  · intro stops polling
    rcases polls polling stops with reason | ⟨before,keeps⟩
    · exact reason
    · exact keeps (awake.polls stops before)
  · intro stops
    by_contra here
    rw [unstopped (by simpa using here)] at stops
    contradiction

omit [DecidableEq Coro] in
theorem Awake.rest {s s' : State Coro} (awake : Awake s) (stop : s'.stop = s.stop) (polls : s'.pc.polls = false)
    (unstopped : s'.pc.unstopped = false) :
    (s'.stop = true → s'.pc.polls = true → s'.awaits) ∧ (s'.stop = true → s'.pc.unstopped = false) := by
  apply awake.goto stop
  · intro polling
    rw [polls] at polling
    contradiction
  · intro here
    rw [unstopped] at here
    contradiction

omit [DecidableEq Coro] in
private theorem Awake.stop_of_unstopped {s : State Coro} (awake : Awake s) (here : s.pc.unstopped = true) : s.stop = false := by
  by_contra stops
  have passed := awake.unstopped (by simpa using stops)
  rw [here] at passed
  contradiction

omit [DecidableEq Coro] in
private theorem awaits_of_wait {s : State Coro} (some : ¬ (s.numWaitTask = 0 ∧ s.emptyIo = true)) : s.awaits := by
  by_cases waits : s.numWaitTask = 0
  · exact .inr (.inr (.inr (by simpa using fun empty => some ⟨waits,empty⟩)))
  · exact .inr (.inr (.inl waits))

private theorem resume_stop (s : State Coro) (handle : Coro) : (s.resume handle).stop = s.stop := by
  unfold State.resume; split <;> rfl

theorem Awake.advance {s s' : State Coro} (awake : Awake s) (moved : advance s = some s') (running : s.pc ≠ .stopCb) :
    (s'.stop = true → s'.pc.polls = true → s'.awaits) ∧ (s'.stop = true → s'.pc.unstopped = false) := by
  cases pc : s.pc with
  | running | returned | aborted => simp [Context.advance,pc] at moved
  | stopCb => contradiction
  | exec left =>
    cases left with
    | zero =>
      simp only [Context.advance,pc,Option.some.injEq] at moved
      subst moved
      exact awake.rest rfl rfl rfl
    | succ left =>
      simp only [Context.advance,pc] at moved
      split at moved
      next => contradiction
      next =>
        cases moved
        exact awake.rest (resume_stop ..) rfl rfl
  | stopRequested =>
    by_cases stop : s.stop = true
    · simp only [Context.advance,pc,if_pos stop,Option.some.injEq] at moved
      subst moved
      exact awake.rest rfl rfl rfl
    · simp only [Context.advance,pc,if_neg stop,Option.some.injEq] at moved
      subst moved
      exact awake.goto rfl (fun _ stops => absurd stops stop) (by simp [Pc.unstopped])
  | emptyWaitWork =>
    by_cases idle : s.numWaitTask = 0 ∧ s.emptyIo = true
    · simp only [Context.advance,pc,if_pos idle,Option.some.injEq] at moved
      subst moved
      exact awake.rest rfl rfl rfl
    · simp only [Context.advance,pc,if_neg idle,Option.some.injEq] at moved
      subst moved
      exact awake.goto rfl (fun _ _ => .inl (awaits_of_wait idle)) (by simp [Pc.unstopped])
  | stopNotRequested =>
    by_cases stop : s.stop = true
    · simp only [Context.advance,pc,if_pos stop,Option.some.injEq] at moved
      subst moved
      exact awake.goto rfl (fun _ _ => .inr ⟨by rw [pc]; rfl,id⟩) (by simp [Pc.unstopped])
    · simp only [Context.advance,pc,if_neg stop,Option.some.injEq] at moved
      subst moved
      exact awake.goto rfl (by simp [Pc.polls]) fun _ => by simpa using stop
  | idleWaitWork | notReady =>
    have passed := awake.stop_of_unstopped (by rw [pc]; rfl)
    simp only [Context.advance,pc,Option.some.injEq] at moved
    subst moved
    exact awake.goto rfl (fun _ stops => by rw [passed] at stops; contradiction) fun _ => passed
  | doIoSubmit =>
    simp only [Context.advance,pc,Option.ite_none_left_eq_some,Option.some.injEq] at moved
    obtain ⟨_,rfl⟩ := moved
    exact awake.goto rfl (fun _ _ => .inr ⟨by rw [pc]; rfl,id⟩) (by simp [Pc.unstopped])
  | ioSubmitted =>
    simp only [Context.advance,pc,Option.some.injEq] at moved
    subst moved
    refine awake.goto rfl (fun _ _ => .inr ⟨by rw [pc]; rfl,?_⟩) (by simp [Pc.unstopped])
    -- the operations are counted as running from now on
    have wait := awake.counters.wait
    have active := awake.counters.running
    refine Or.imp_right (Or.imp_right (Or.imp_right fun some => ?_))
    simp only [State.emptyIo,decide_eq_false_iff_not] at some ⊢
    omega
  | waitEventfd =>
    simp only [Context.advance,pc,Option.ite_none_left_eq_some,Option.some.injEq] at moved
    obtain ⟨_,moves⟩ := moved
    cases woken : wakeByCqe s.efd with
    | true =>
      rw [woken] at moves
      subst moves
      exact awake.rest rfl rfl rfl
    | false =>
      rw [woken] at moves
      subst moves
      exact awake.rest rfl rfl rfl
  | _ =>
    simp only [Context.advance,pc] at moved
    repeat' split at moved
    all_goals cases moved
    all_goals exact awake.rest rfl rfl rfl

theorem Awake.others {s s' : State Coro} {a : Action Coro} (awake : Awake s) (moved : stepAlone s a = some s')
    (other : a ≠ .step) :
    (s'.stop = true → s'.pc.polls = true → s'.awaits) ∧ (s'.stop = true → s'.pc.unstopped = false) := by
  -- what is read of a state whose worker stays where it is
  have stays : ∀ t : State Coro, t.stop = s.stop → t.pc = s.pc → (s.awaits → t.awaits) →
      (t.stop = true → t.pc.polls = true → t.awaits) ∧ (t.stop = true → t.pc.unstopped = false) := by
    intro t stop pc keeps
    rw [stop,pc]
    exact ⟨fun stops polling => keeps (awake.polls stops polling),awake.unstopped⟩
  cases a with
  | step => contradiction
  | requestStop | stopWake => contradiction
  | accept count =>
    simp only [stepAlone,Context.step] at moved
    split at moved
    next pc =>
      simp only [Option.ite_none_right_eq_some,Option.some.injEq] at moved
      obtain ⟨_,rfl⟩ := moved
      exact awake.goto rfl (fun _ _ => .inr ⟨by rw [pc]; rfl,id⟩) (by simp [Pc.unstopped])
    next => contradiction
  | io type data ptr =>
    simp only [stepAlone,Context.step] at moved
    split at moved
    next pc =>
      simp only [Option.ite_none_right_eq_some,Option.some.injEq] at moved
      obtain ⟨_,rfl⟩ := moved
      exact awake.rest rfl (by rw [pc]; rfl) (by rw [pc]; rfl)
    next => contradiction
  | submitSelf t | coAwait ptr | suspend =>
    simp only [stepAlone,Context.step] at moved
    repeat' split at moved
    all_goals cases moved
    all_goals exact awake.rest rfl rfl rfl
  | registerWait cnt =>
    simp only [stepAlone] at moved
    split at moved
    next left handle pc =>
      cases Option.some.inj moved
      exact awake.rest rfl (by rw [pc]; rfl) (by rw [pc]; rfl)
    next =>
      split at moved
      next none =>
        cases Option.some.inj moved
        exact stays _ rfl rfl (by simp [State.awaits,State.emptyIo,none])
      next => contradiction
  | push t =>
    cases Option.some.inj moved
    exact stays _ rfl rfl fun _ => .inr (.inl (Nat.succ_pos _))
  | wake =>
    simp only [stepAlone,Context.step,Option.ite_none_right_eq_some,Option.some.injEq] at moved
    obtain ⟨_,rfl⟩ := moved
    exact stays _ rfl rfl fun _ => .inl (Nat.add_pos_right _ (by decide))
  | post before after entry res =>
    simp only [stepAlone,Context.step,Option.ite_none_right_eq_some,Option.some.injEq] at moved
    obtain ⟨_,rfl⟩ := moved
    exact stays _ rfl rfl fun _ => .inl (Nat.succ_pos _)

theorem Awake.step {s s' : State Coro} {a : Action Coro} (awake : Awake s) (woken : CallbackWoken s a)
    (moved : stepAlone s a = some s') : Awake s' := by
  obtain ⟨t,stepped,worker⟩ := step_of_stepAlone moved
  have counters := awake.counters.step stepped
  rcases worker with ⟨rfl,plain⟩ | ⟨pc,rfl,rfl⟩
  · by_cases worker : a = .step
    · subst worker
      have running : s.pc ≠ .stopCb := fun pc => plain pc rfl
      obtain ⟨polls,unstopped⟩ := awake.advance stepped running
      exact ⟨counters,polls,unstopped⟩
    · obtain ⟨polls,unstopped⟩ := awake.others moved worker
      exact ⟨counters,polls,unstopped⟩
  · -- the default callback itself: the wake-up that the condition asks for is still there
    have woken := woken (by rw [pc]; rfl)
    simp only [Context.step,Context.advance,pc,Option.some.injEq] at stepped
    subst stepped
    exact ⟨{ counters with },fun _ _ => woken.elim .inl fun waking => .inr (.inl waking),fun _ => rfl⟩

/-- In runs whose default callbacks all find a wake-up left, the worker never
sleeps after it has decided to stop. -/
theorem woken_never_asleep (s : State Coro) (within : (standalone Coro).Within CallbackWoken s) : ¬ Asleep s := by
  have awake : Awake s :=
    Machine.Within.invariant alone_awake (fun _ _ _ before woken moved => before.step woken moved) within
  rintro ⟨pc,efd,stop,_,waits,io,waking⟩
  rcases awake.polls stop (by rw [pc]; rfl) with written | writing | registered | operations
  · omega
  · omega
  · exact registered waits
  · rw [io] at operations
    contradiction

instance (s : State Coro) : (a : Action Coro) → Decidable (CallbackWoken s a)
  | .step => inferInstanceAs (Decidable (_ → _))
  | .accept _ | .submitSelf _ | .io _ _ _ | .coAwait _ | .suspend | .registerWait _ | .push _ | .wake | .requestStop | .stopWake
  | .post _ _ _ _ => inferInstanceAs (Decidable True)

private theorem initial_alone : Alone initial := ⟨initial_fresh,rfl⟩

def oneTask : List (Action Unit) := [Action.push (),.wake,.step,.step,.suspend] ++ List.replicate 8 Action.step

theorem one_task_not_asleep : ∃ s : State Unit, (standalone Unit).guardedRun CallbackWoken initial oneTask = some s ∧
    s.stop = true ∧ ¬ Asleep s := by
  have ran : ((standalone Unit).guardedRun CallbackWoken initial oneTask).map (fun s => s.stop) = some true := by decide
  obtain ⟨s,reached,stop⟩ := Option.map_eq_some_iff.mp ran
  have within := Machine.guardedRun_within _ _ _ _ (.start initial_alone) reached
  exact ⟨s,reached,stop,woken_never_asleep s within⟩

/-- A context started without any task calls the callback at once and falls asleep. -/
theorem no_task_falls_asleep : ¬ ∀ (actions : List (Action Unit)) (s : State Unit),
    (standalone Unit).run initial actions = some s → ¬ Asleep s := by
  intro claimed
  have ran : ((standalone Unit).run initial (List.replicate 8 .step)).map
      (fun s => ((s.efd,s.waking,s.stop),(s.taskQueue,s.numWaitTask,s.emptyIo),
        match s.pc with | .waitEventfd => true | _ => false)) = some ((0,0,true),([],0,true),true) := by decide
  obtain ⟨s,reached,shape⟩ := Option.map_eq_some_iff.mp ran
  simp only [Prod.mk.injEq] at shape
  obtain ⟨⟨efd,waking,stop⟩,⟨queue,waits,io⟩,blocked⟩ := shape
  refine claimed _ s reached ⟨?_,efd,stop,queue,waits,io,waking⟩
  split at blocked
  next pc => exact pc
  next => contradiction

end TinyCoro.Context
