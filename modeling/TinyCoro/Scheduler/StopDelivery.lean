import TinyCoro.Scheduler.NeverHangs

/-! `stop_impl` is entered once and notifies contexts that are started and have not
left, in runs that keep clear of three orders of steps. -/
namespace TinyCoro.Scheduler
open Library TwoParties

variable {n : Nat} {Coro Ext : Type} [DecidableEq Coro] [DecidableEq Ext]

/-- Each step of a `notify_stop` finds `m_job` assigned and the eventfd open. -/
structure Delivered (s : State n Coro Ext) : Prop where
  once : s.stops ≤ 1
  live : ∀ w k s', (s.stopCb w).notifies = some k → step s (.callback w) = some s' → s.job k = true ∧ s.closed k = false

/-- No callback takes the branch into `stop_impl` with `cnt` zero, or before `start_impl`
is done; no worker takes the branch out of `run` between the two steps of a
`notify_stop` for it; no submit counts up from a token of zero. -/
def Orderly (s : State n Coro Ext) : Action n Coro Ext → Prop
  | .callback i =>
    match s.stopCb i with
    | .fetchSub cnt => s.stopToken = cnt → s.start = .done ∧ cnt ≠ 0
    | _ => True
  | .work i .step =>
    match (s.ctxs i).pc with
    | .ready => (s.ctxs i).taskQueue = [] → ∀ w, s.stopCb w ≠ .wakeUp i
    | _ => True
  | .proceed u =>
    match s.submits u with
    | .fetchAdd _ 0 _ => s.stopToken ≠ 0
    | _ => True
  | _ => True

structure Delivery (s : State n Coro Ext) : Prop where
  once : s.stops ≤ 1
  drained : s.stops = 1 → s.stopToken ≤ 0
  begun : s.stops ≠ 0 → s.start = .done
  upTo : ∀ i, s.start = .spawn i ∨ s.start = .assign i → ∀ j < i, s.job j = true
  assigned : s.start = .done → ∀ i, s.job i = true
  alone : ∀ w w' k k', (s.stopCb w).notifies = some k → (s.stopCb w').notifies = some k' → w = w'
  requested : ∀ w k, s.stopCb w = .requestStop k → ∀ j, (s.ctxs j).stop = true → j < k
  waking : ∀ w k, s.stopCb w = .wakeUp k → (s.ctxs k).pc ≠ .returned ∧ ∀ j, (s.ctxs j).stop = true → j ≤ k

omit [DecidableEq Coro] [DecidableEq Ext] in
private theorem fresh_delivery (s : State n Coro Ext) (fresh : Fresh s) : Delivery s := by
  obtain ⟨_,_,_,stopCb,_,start,_,_,_,_,stops⟩ := fresh
  refine ⟨by omega,by omega,fun more => absurd stops more,?_,?_,?_,?_,?_⟩
  · intro i here j less
    by_cases some : 0 < n
    · rw [start,dif_pos some] at here
      simp only [Start.spawn.injEq,reduceCtorEq,or_false] at here
      subst here
      exact absurd (Fin.lt_def.mp less) (Nat.not_lt_zero _)
    · exact absurd i.pos some
  · intro done i
    rw [start,dif_pos i.pos] at done
    contradiction
  all_goals simp [stopCb,StopCb.notifies]

section
variable {s s' : State n Coro Ext}

private theorem left_of_work {c c' : Context.State Coro} {a : Context.Action Coro} (own : a = .step ∨ isWork a = true)
    (moved : Context.step c a = some c') (before : c.pc ≠ .returned) (gone : c'.pc = .returned) :
    a = .step ∧ c.pc = .ready ∧ c.taskQueue = [] := by
  cases a with
  | step =>
    simp only [Context.step,Context.advance] at moved
    split at moved
    all_goals repeat' split at moved
    all_goals cases moved
    all_goals try simp at gone
    next pc queue => exact ⟨rfl,pc,queue⟩
  | accept | submitSelf | io | coAwait | suspend | post =>
    simp only [Context.step] at moved
    repeat' split at moved
    all_goals cases moved
    all_goals contradiction
  | _ => simp [isWork] at own

omit [DecidableEq Coro] [DecidableEq Ext] in
theorem Delivery.keep (delivery : Delivery s) (stops : s'.stops = s.stops) (stopCb : s'.stopCb = s.stopCb)
    (start : s'.start = s.start) (job : s'.job = s.job) (stop : ∀ j, (s'.ctxs j).stop = (s.ctxs j).stop)
    (token : s.stopToken ≤ 0 → s'.stopToken ≤ 0)
    (stays : ∀ w k, s.stopCb w = .wakeUp k → (s'.ctxs k).pc ≠ .returned) : Delivery s' := by
  refine ⟨stops ▸ delivery.once,?_,?_,?_,?_,?_,?_,?_⟩
  · exact fun one => token (delivery.drained (stops ▸ one))
  · exact fun more => start.trans (delivery.begun (stops ▸ more))
  · rw [start,job]
    exact delivery.upTo
  · rw [start,job]
    exact delivery.assigned
  · rw [stopCb]
    exact delivery.alone
  · exact fun w k here j requested => delivery.requested w k (stopCb ▸ here) j (stop j ▸ requested)
  · intro w k here
    rw [stopCb] at here
    exact ⟨stays w k here,fun j requested => (delivery.waking w k here).2 j (stop j ▸ requested)⟩

omit [DecidableEq Coro] [DecidableEq Ext] in
theorem Delivery.calling (delivery : Delivery s) {i : Fin n} {p : StopCb n} (silent : p.notifies = none)
    (stopCb : s'.stopCb = Function.update s.stopCb i p) (stops : s'.stops = s.stops) (start : s'.start = s.start)
    (job : s'.job = s.job) (stop : ∀ j, (s'.ctxs j).stop = (s.ctxs j).stop) (token : s.stopToken ≤ 0 → s'.stopToken ≤ 0)
    (stays : ∀ j, (s.ctxs j).pc ≠ .returned → (s'.ctxs j).pc ≠ .returned) : Delivery s' := by
  have others : ∀ w k, (s'.stopCb w).notifies = some k → s'.stopCb w = s.stopCb w := by
    intro w k note
    rw [stopCb] at note ⊢
    by_cases same : w = i
    · subst same
      simp [silent] at note
    · rw [Function.update_of_ne same]
  refine ⟨stops ▸ delivery.once,?_,?_,?_,?_,?_,?_,?_⟩
  · exact fun one => token (delivery.drained (stops ▸ one))
  · exact fun more => start.trans (delivery.begun (stops ▸ more))
  · rw [start,job]
    exact delivery.upTo
  · rw [start,job]
    exact delivery.assigned
  · intro w w' k k' note note'
    exact delivery.alone w w' k k' (others w k note ▸ note) (others w' k' note' ▸ note')
  · intro w k here j requested
    have same := others w k (by rw [here]; rfl)
    exact delivery.requested w k (same ▸ here) j (stop j ▸ requested)
  · intro w k here
    have same := others w k (by rw [here]; rfl)
    have before := delivery.waking w k (same ▸ here)
    exact ⟨stays k before.1,fun j requested => before.2 j (stop j ▸ requested)⟩

omit [DecidableEq Coro] [DecidableEq Ext] in
/-- The one callback in `stop_impl` goes on there. -/
theorem Delivery.notifying (delivery : Delivery s) {i : Fin n} {p : StopCb n}
    (alone : ∀ w, w ≠ i → (s.stopCb w).notifies = none) (stopCb : s'.stopCb = Function.update s.stopCb i p)
    (once : s'.stops = 1) (token : s'.stopToken ≤ 0) (begun : s'.start = .done) (start : s'.start = s.start) (job : s'.job = s.job)
    (requested : ∀ k, p = .requestStop k → ∀ j, (s'.ctxs j).stop = true → j < k)
    (waking : ∀ k, p = .wakeUp k → (s'.ctxs k).pc ≠ .returned ∧ ∀ j, (s'.ctxs j).stop = true → j ≤ k) : Delivery s' := by
  have mine : ∀ w k, (s'.stopCb w).notifies = some k → w = i := by
    intro w k note
    rw [stopCb] at note
    by_contra other
    rw [Function.update_of_ne other,alone w other] at note
    contradiction
  have here' : s'.stopCb i = p := by rw [stopCb,Function.update_self]
  refine ⟨once.le,fun _ => token,fun _ => begun,by simp [begun],?_,?_,?_,?_⟩
  · rw [start,job]
    exact delivery.assigned
  · exact fun w w' k k' note note' => (mine w k note).trans (mine w' k' note').symm
  · intro w k here
    obtain rfl := mine w k (by rw [here]; rfl)
    exact requested k (here'.symm.trans here)
  · intro w k here
    obtain rfl := mine w k (by rw [here]; rfl)
    exact waking k (here'.symm.trans here)

omit [DecidableEq Coro] [DecidableEq Ext] in
theorem Delivery.others (delivery : Delivery s) {i k : Fin n} (note : (s.stopCb i).notifies = some k) (w : Fin n) (other : w ≠ i) :
    (s.stopCb w).notifies = none := by
  by_contra note'
  obtain ⟨k',note'⟩ := Option.ne_none_iff_exists'.mp note'
  exact other (delivery.alone w i k' k note' note)

omit [DecidableEq Coro] [DecidableEq Ext] in
theorem Delivery.goesOn (delivery : Delivery s) (stopping : Stopping s) {i k : Fin n} (here : s.stopCb i = .wakeUp k)
    (stopCb : s'.stopCb = Function.update s.stopCb i (.after k)) (stops : s'.stops = s.stops)
    (stop : ∀ j, (s'.ctxs j).stop = (s.ctxs j).stop) (start : s'.start = s.start) (job : s'.job = s.job)
    (token : s'.stopToken = s.stopToken) : Delivery s' := by
  have note : (s.stopCb i).notifies = some k := by rw [here]; rfl
  have now := stopping.notifies i k note
  have once := delivery.once
  have one : s.stops = 1 := by omega
  refine delivery.notifying (delivery.others note) stopCb (stops.trans one) (token ▸ delivery.drained one)
    (start.trans (delivery.begun now)) start job ?_ ?_
  · intro k' next'
    cases more : next k with
    | none => simp [StopCb.after,more] at next'
    | some k'' =>
      have follows := next_some more
      simp only [StopCb.after,more,Option.elim_some,StopCb.requestStop.injEq] at next'
      subst next'
      intro j requested
      have within := Fin.le_def.mp ((delivery.waking i k here).2 j (stop j ▸ requested))
      exact Fin.lt_def.mpr (by omega)
  · intro k' next'
    cases more : next k <;> simp [StopCb.after,more] at next'

theorem Delivery.effect {a : Action n Coro Ext} (delivery : Delivery s) (bits : Bits s) (awake : Awake s) (stopping : Stopping s)
    (orderly : Orderly s a) (effect : Effect s a s') : Delivery s' := by
  cases effect with
  | crash | submit | load | dispatch | fetchOr | dropped =>
    exact delivery.keep rfl rfl rfl rfl (fun _ => rfl) id fun w k here => (delivery.waking w k here).1
  | spawn i here =>
    have more : s.start ≠ .done := by simp [here]
    refine { delivery with begun := fun some => absurd (delivery.begun some) more,upTo := ?_,assigned := by simp }
    intro j here'
    simp only [reduceCtorEq,false_or,Start.assign.injEq] at here'
    subst here'
    exact delivery.upTo i (.inl here)
  | assign i here =>
    have more : s.start ≠ .done := by simp [here]
    have upTo : ∀ j ≤ i, Function.update s.job i true j = true := by
      intro j within
      rcases within.lt_or_eq with less | rfl
      · rw [Function.update_of_ne less.ne]
        exact delivery.upTo i (.inr here) j less
      · rw [Function.update_self]
    refine { delivery with begun := fun some => absurd (delivery.begun some) more,upTo := ?_,assigned := ?_ }
    · intro k here'
      simp only at here'
      split at here'
      next k' follows =>
        have value := next_some follows
        simp only [Start.spawn.injEq,reduceCtorEq,or_false] at here'
        subst here'
        exact fun j less => upTo j (Fin.le_def.mpr (by have := Fin.lt_def.mp less; omega))
      next => simp at here'
    · intro done j
      simp only at done
      split at done
      next => contradiction
      next last =>
        have value := next_none last
        exact upTo j (Fin.le_def.mpr (by omega))
  | fetchAdd u ctxId old handle here =>
    refine delivery.keep rfl rfl rfl rfl (fun _ => rfl) ?_ fun w k here => (delivery.waking w k here).1
    intro drained
    rcases Nat.le_one_iff_eq_zero_or_eq_one.mp (bits.olds u ctxId old handle here) with rfl | rfl
    · have : s.stopToken ≠ 0 := by simpa only [Orderly,here] using orderly
      simp only
      omega
    · simpa using drained
  | work i a c spawned open' may moved =>
    have own := (mayWork_cases may).imp_left And.left
    refine delivery.keep rfl rfl rfl rfl ?_ id ?_
    · intro j
      by_cases same : j = i
      · subst same
        simp only [State.context,Function.update_self]
        exact stop_of_work own moved
      · simp only [State.context,Function.update_of_ne same]
    · intro w k here
      have before := (delivery.waking w k here).1
      by_cases same : k = i
      · subst same
        simp only [State.context,Function.update_self]
        intro gone
        obtain ⟨rfl,ready,queue⟩ := left_of_work own moved before gone
        simp only [Orderly,ready] at orderly
        exact orderly queue w here
      · simpa only [State.context,Function.update_of_ne same] using before
  | wait i | resume u i | push u i | written u i | deinit i =>
    refine delivery.keep rfl rfl rfl rfl (update_keeps Context.State.stop rfl) id fun w k here => ?_
    refine ne_of_eq_of_ne ?_ (delivery.waking w k here).1
    exact update_keeps Context.State.pc (by rfl) k
  | fetchAnd i within here =>
    exact delivery.calling (p := .fetchSub (s.ctxStopFlag i)) rfl rfl rfl rfl rfl (fun _ => rfl) id fun _ => id
  | stops i cnt within here last =>
    simp only [Orderly,here] at orderly
    obtain ⟨done,some⟩ := orderly last
    have first : s.stops = 0 := by
      by_contra more
      have := delivery.once
      have := delivery.drained (by omega)
      omega
    have one : s.stopToken ≤ cnt := last.le
    refine delivery.notifying ?_ rfl (by simp [first]) (by simp only; omega) done rfl rfl ?_ (by simp)
    · intro w _
      by_contra note
      obtain ⟨k,note⟩ := Option.ne_none_iff_exists'.mp note
      exact stopping.notifies w k note first
    · intro k _ j requested
      exact absurd first (stopping.stopped j requested)
  | subtracts i cnt within here more =>
    refine delivery.calling (p := .fetchAnd) rfl rfl rfl rfl rfl ?_ (by simp only; omega) ?_
    · exact update_keeps Context.State.stop rfl
    · intro j before
      by_cases same : j = i
      · subst same
        simp [State.endCallback,State.context]
      · simpa only [State.endCallback,State.context,Function.update_of_ne same] using before
  | requestStop i k within here assigned =>
    have note : (s.stopCb i).notifies = some k := by rw [here]; rfl
    have now := stopping.notifies i k note
    have once := delivery.once
    have one : s.stops = 1 := by omega
    have unstopped : (s.ctxs k).stop ≠ true := fun stop => lt_irrefl k (delivery.requested i k here k stop)
    refine delivery.notifying (delivery.others note) rfl one (delivery.drained one) (delivery.begun now) rfl rfl (by simp) ?_
    intro k' here'
    cases here'
    refine ⟨?_,?_⟩
    · simp only [State.context,Function.update_self]
      exact fun gone => unstopped ((awake.watched k).seen (by rw [gone]; rfl))
    · intro j requested
      by_cases same : j = k
      · exact same.le
      · simp only [State.context,Function.update_of_ne same] at requested
        exact (delivery.requested i k here j requested).le
  | notified i k within here open' =>
    refine delivery.goesOn stopping here (by simp [State.context]) (by simp [State.context]) ?_ (by simp [State.context])
      (by simp [State.context]) (by simp [State.context])
    intro j
    rw [notified_keeps _ i k Context.State.stop fun _ => rfl]
    exact update_keeps Context.State.stop (by rfl) j
  | unnotified i k within here closed =>
    exact delivery.goesOn stopping here (by simp) (by simp) (notified_keeps s i k Context.State.stop fun _ => rfl)
      (by simp) (by simp) (by simp)

end

/-- In runs whose steps are all orderly, the stop is delivered once, to live contexts. -/
theorem orderly_delivers (s : State n Coro Ext) (within : (machine n Coro Ext).Within Orderly s) : Delivered s := by
  have all : (Bits s ∧ Awake s) ∧ Stopping s ∧ Delivery s :=
    Machine.Within.invariant
      (fun s fresh => And.intro (And.intro (fresh_bits s fresh) (fresh_awake s fresh))
        (And.intro (fresh_stopping s fresh) (fresh_delivery s fresh)))
      (fun _ _ _ before orderly moved =>
        have effect := (effect_step moved).2
        And.intro (And.intro (before.1.1.effect effect) (before.1.2.effect effect))
          (And.intro (before.2.1.effect before.1.1 effect)
            (before.2.2.effect before.1.1 before.1.2 before.2.1 orderly effect)))
      within
  obtain ⟨⟨_,awake⟩,stopping,delivery⟩ := all
  refine ⟨delivery.once,?_⟩
  intro w k _ note _
  have now := stopping.notifies w k note
  refine ⟨delivery.assigned (delivery.begun now) k,?_⟩
  by_contra closed
  have gone := awake.closed k (by simpa using closed)
  cases here : s.stopCb w with
  | wakeUp k' =>
    have same : k' = k := by simpa [here,StopCb.notifies] using note
    exact (delivery.waking w k' here).1 (same ▸ gone)
  | requestStop k' =>
    have same : k' = k := by simpa [here,StopCb.notifies] using note
    have stop := (awake.watched k).seen (by rw [gone]; rfl)
    exact lt_irrefl k (same ▸ delivery.requested w k' here k stop)
  | _ => simp [here,StopCb.notifies] at note

instance (s : State n Coro Ext) (a : Action n Coro Ext) : Decidable (Orderly s a) :=
  match a with
  | .callback i =>
    show Decidable (match s.stopCb i with
      | .fetchSub cnt => s.stopToken = cnt → s.start = .done ∧ cnt ≠ 0
      | _ => True) from
    match s.stopCb i with
    | .fetchSub _ => inferInstanceAs (Decidable (_ → _))
    | .fetchAnd | .requestStop _ | .wakeUp _ => isTrue trivial
  | .work i .step =>
    show Decidable (match (s.ctxs i).pc with
      | .ready => (s.ctxs i).taskQueue = [] → ∀ w, s.stopCb w ≠ .wakeUp i
      | _ => True) from
    match (s.ctxs i).pc with
    | .ready => inferInstanceAs (Decidable (_ → _))
    | .processWork | .exec _ | .running _ _ | .wakeSelf _ _ | .stopRequested | .emptyWaitWork | .stopNotRequested
    | .idleWaitWork | .notReady | .stopCb | .doIoSubmit | .ioSubmitted | .waitEventfd | .peekBatchCqe | .handleCqe _ _
    | .wakeUp _ _ | .cqAdvance _ | .subtract _ | .returned | .aborted _ _ => isTrue trivial
  | .proceed u =>
    show Decidable (match s.submits u with
      | .fetchAdd _ 0 _ => s.stopToken ≠ 0
      | _ => True) from
    match s.submits u with
    | .fetchAdd _ 0 _ => inferInstanceAs (Decidable (¬ _))
    | .fetchAdd _ (_ + 1) _ | .idle | .load _ | .dispatch _ | .fetchOr _ _ | .push _ _ | .wakeUp _ => isTrue trivial
  | .work _ (.accept _) | .work _ (.submitSelf _) | .work _ (.io _ _ _) | .work _ (.coAwait _) | .work _ .suspend
  | .work _ (.registerWait _) | .work _ (.push _) | .work _ .wake | .work _ .requestStop | .work _ .stopWake | .work _ (.post _ _ _ _)
  | .start | .wait _ _ | .submit _ _ | .resume _ _ _ | .deinit _ => isTrue trivial

/-- One context without tasks is started, goes idle and stops itself. -/
def startThenStop : List (Action 1 Nat Empty) :=
  List.replicate 2 Action.start ++ List.replicate 6 (Action.work 0 .step) ++ List.replicate 4 (Action.callback 0) ++
    List.replicate 8 (Action.work 0 .step) ++ [Action.deinit 0]

theorem start_then_stop_delivers : ∃ s : State 1 Nat Empty,
    (machine 1 Nat Empty).guardedRun Orderly (initial 1 Empty 0 fun _ => []) startThenStop = some s ∧
    s.stops = 1 ∧ s.closed 0 = true ∧ Delivered s := by
  have ran : ((machine 1 Nat Empty).guardedRun Orderly (initial 1 Empty 0 fun _ => []) startThenStop).map
      (fun s => (s.stops,s.closed 0)) = some (1,true) := by decide
  obtain ⟨s,reached,shape⟩ := Option.map_eq_some_iff.mp ran
  simp only [Prod.mk.injEq] at shape
  have within := Machine.guardedRun_within _ _ _ _ (.start (initial_fresh _ _)) reached
  exact ⟨s,reached,shape.1,shape.2,orderly_delivers s within⟩

/-- The only thread goes idle before `start` has stored it. -/
theorem early_idle_finds_no_job : ¬ ∀ s : State 1 Nat Empty, (machine 1 Nat Empty).Reachable s → Delivered s := by
  intro claimed
  have ran : ((machine 1 Nat Empty).run (initial 1 Empty 0 fun _ => [])
      ([Action.start] ++ List.replicate 6 (Action.work 0 .step) ++ List.replicate 2 (Action.callback 0))).map
      (fun s => (s.stopCb 0,s.job 0,(step s (.callback 0)).isSome)) = some (.requestStop 0,false,true) := by decide
  obtain ⟨s,reached,shape⟩ := Option.map_eq_some_iff.mp ran
  simp only [Prod.mk.injEq] at shape
  obtain ⟨here,job,next⟩ := shape
  obtain ⟨s',moved⟩ := Option.isSome_iff_exists.mp next
  have reachable := Machine.run_reachable _ _ _ _ (.start (initial_fresh _ _)) reached
  have assigned := ((claimed s reachable).live 0 0 s' (by rw [here]; rfl) moved).1
  rw [job] at assigned
  contradiction

/-- The second of two contexts goes idle last, while the first is awake. -/
def firstAwake : List (Action 2 Nat Empty) :=
  List.replicate 4 Action.start ++ List.replicate 2 (Action.work 0 .step) ++ [Action.work 0 .suspend] ++
    List.replicate 5 (Action.work 0 .step) ++ List.replicate 2 (Action.callback 0) ++ List.replicate 2 (Action.work 0 .step) ++
    List.replicate 6 (Action.work 1 .step) ++ List.replicate 2 (Action.callback 1)

/-- The first finds `cnt` and the token both zero, and enters `stop_impl` again. -/
example : ((machine 2 Nat Empty).run (initial 2 Empty 0 fun i => if i = 0 then [5] else [])
    (firstAwake ++ List.replicate 6 (Action.work 0 .step) ++ List.replicate 2 (Action.callback 0))).map (·.stops) = some 2 := by decide

/-- The first sees its stop and is deinitialised before `wake_up`. -/
example : ((machine 2 Nat Empty).run (initial 2 Empty 0 fun i => if i = 0 then [5] else [])
    (firstAwake ++ [Action.callback 1] ++ List.replicate 5 (Action.work 0 .step) ++ [Action.deinit 0])).map
    (fun s => (s.stopCb 1,s.closed 0)) = some (.wakeUp 0,true) := by decide

end TinyCoro.Scheduler
