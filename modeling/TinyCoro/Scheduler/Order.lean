import TinyCoro.Library.Dispatch
import TinyCoro.Scheduler.Quiescence

/-! The scheduler as a dispatch of tasks: what is submitted, where it is placed and
what the workers execute, in which order and how often. -/
namespace TinyCoro.Scheduler
open Library TwoParties

section
variable {Coro : Type} [DecidableEq Coro] {c c' : Context.State Coro}

def takes (c : Context.State Coro) : Context.Action Coro → Option Coro
  | .step =>
    match c.pc with
    | .exec (_+1) => c.taskQueue.head?
    | _ => none
  | _ => none

def puts (c : Context.State Coro) : Context.Action Coro → Option Coro
  | .step =>
    match c.pc with
    | .handleCqe i cnt => if i < cnt then c.cq[i]?.bind fun cqe => (c.info cqe.entry.userData).handle else none
    | _ => none
  | .submitSelf t => some t
  | _ => none

private theorem queue_of_work {a : Context.Action Coro} (own : a = .step ∨ isWork a = true) (moved : Context.step c a = some c') :
    (∃ handle left, takes c a = some handle ∧ puts c a = none ∧ c.taskQueue = handle :: c'.taskQueue ∧
      c'.pc = .running left handle) ∨
    takes c a = none ∧ c'.taskQueue = c.taskQueue ++ (puts c a).toList := by
  cases a with
  | step =>
    simp only [Context.step,Context.advance] at moved
    split at moved
    case h_3 left pc =>
      split at moved
      next => contradiction
      next handle rest front =>
        cases moved
        exact .inl ⟨handle,left,by simp [takes,pc,front],by simp [puts,pc],front,rfl⟩
    all_goals next pc =>
      repeat' split at moved
      all_goals cases moved
      all_goals refine .inr ⟨by simp [takes,pc],?_⟩
      all_goals simp_all [puts,Context.State.handleCqe,Context.State.storeResult,Context.State.writeEventfd]
  | submitSelf t =>
    simp only [Context.step] at moved
    repeat' split at moved
    all_goals cases moved
    exact .inr ⟨rfl,rfl⟩
  | accept | io | coAwait | suspend | post =>
    simp only [Context.step] at moved
    repeat' split at moved
    all_goals cases moved
    all_goals exact .inr ⟨rfl,(List.append_nil _).symm⟩
  | _ => simp [isWork] at own

end

variable {n : Nat} {Coro Ext : Type}

def Submission.handle : Submission n Coro → Option Coro
  | .load handle | .dispatch handle | .fetchOr _ handle | .fetchAdd _ _ handle | .push _ handle => some handle
  | .idle | .wakeUp _ => none

/-- What a step is in the dispatch. -/
def shows (s : State n Coro Ext) : Action n Coro Ext → List (Dispatch.Event (Submitter n Ext) (Fin n) Coro)
  | .submit u handle => [.accept u handle]
  | .resume _ i handle => [.give i handle]
  | .proceed u =>
    match s.submits u with
    | .push i handle => [.place u i handle]
    | _ => []
  | .work i a => ((takes (s.ctxs i) a).map (.take i)).toList ++ ((puts (s.ctxs i) a).map (.give i)).toList
  | .deinit i => [.close i (s.ctxs i).taskQueue]
  | .start | .wait _ _ | .callback _ => []

def dispatches (s : State n Coro Ext) : Dispatch (Submitter n Ext) (Fin n) Coro where
  pending u := (s.submits u).handle
  queue i := (s.ctxs i).taskQueue
  isOpen i := !s.closed i

section
variable [DecidableEq Coro] [DecidableEq Ext] {s s' : State n Coro Ext}

private theorem shows_of_crash {a : Action n Coro Ext} (moved : step s a = some { s with crashed := true }) : shows s a = [] := by
  have alive := (effect_step moved).1
  unfold step at moved
  rw [if_neg (by simp [alive])] at moved
  cases a with
  | start | wait | callback => rfl
  | proceed u =>
    cases here : s.submits u with
    | push i handle =>
      simp only [act,proceed,here,Option.some.injEq] at moved
      have := congrArg State.crashed moved
      simp [State.context,State.submitting,alive] at this
    | _ => simp [shows,here]
  | submit u handle | resume u i handle =>
    simp only [act] at moved
    split at moved
    · have := congrArg State.crashed (Option.some.inj moved)
      simp [State.context,State.submitting,alive] at this
    · contradiction
  | work i a =>
    simp only [act] at moved
    split at moved
    · obtain ⟨c,_,same⟩ := Option.map_eq_some_iff.mp moved
      have := congrArg State.crashed same
      simp [State.context,alive] at this
    · contradiction
  | deinit i =>
    simp only [act] at moved
    repeat' split at moved
    all_goals try contradiction
    have := congrArg State.crashed (Option.some.inj moved)
    simp [State.context,alive] at this

omit [DecidableEq Coro] in
private theorem dispatches_submitting (u : Submitter n Ext) (p : Submission n Coro) :
    dispatches (s.submitting u p) = { dispatches s with pending := Function.update (dispatches s).pending u p.handle } := by
  simp only [dispatches,State.submitting,Dispatch.mk.injEq,and_true]
  funext v
  by_cases same : v = u
  · subst same
    rw [Function.update_self,Function.update_self]
  · rw [Function.update_of_ne same,Function.update_of_ne same]

omit [DecidableEq Coro] [DecidableEq Ext] in
private theorem dispatches_context (i : Fin n) (c : Context.State Coro) :
    dispatches (s.context i c) = { dispatches s with queue := Function.update (dispatches s).queue i c.taskQueue } := by
  simp only [dispatches,State.context,Dispatch.mk.injEq,and_true,true_and]
  funext j
  by_cases same : j = i
  · subst same
    rw [Function.update_self,Function.update_self]
  · rw [Function.update_of_ne same,Function.update_of_ne same]

omit [DecidableEq Coro] [DecidableEq Ext] in
private theorem dispatches_requeue (i : Fin n) (c : Context.State Coro) (same : c.taskQueue = (s.ctxs i).taskQueue) :
    dispatches (s.context i c) = dispatches s := by
  rw [dispatches_context,same]
  exact congrArg (fun q => { dispatches s with queue := q }) (Function.update_eq_self i (dispatches s).queue)

omit [DecidableEq Coro] [DecidableEq Ext] in
private theorem dispatches_closed (i : Fin n) (c : Context.State Coro) :
    dispatches { s.context i c with closed := Function.update s.closed i true } =
      { dispatches s with
        queue := Function.update (dispatches s).queue i c.taskQueue
        isOpen := Function.update (dispatches s).isOpen i false } := by
  have opened : (fun j => !Function.update s.closed i true j) = Function.update (fun j => !s.closed j) i false := by
    funext j
    by_cases same : j = i
    · subst same
      rw [Function.update_self,Function.update_self,Bool.not_true]
    · rw [Function.update_of_ne same,Function.update_of_ne same]
  have queues := congrArg Dispatch.queue (dispatches_context (s := s) i c)
  simp only [dispatches] at queues ⊢
  rw [queues]
  exact congrArg _ opened

omit [DecidableEq Coro] [DecidableEq Ext] in
private theorem dispatches_notified (i k : Fin n) : dispatches (s.notified i k) = dispatches s := by
  have queues := notified_keeps s i k Context.State.taskQueue fun _ => rfl
  simp only [dispatches,notified_submits,notified_closed,queues]

/-- Every step of the scheduler is in the dispatch what it shows. -/
theorem step_dispatches {a : Action n Coro Ext} (moved : step s a = some s') :
    (Dispatch.machine (Submitter n Ext) (Fin n) Coro).run (dispatches s) (shows s a) = some (dispatches s') := by
  have silent : shows s a = [] → dispatches s' = dispatches s →
      (Dispatch.machine (Submitter n Ext) (Fin n) Coro).run (dispatches s) (shows s a) = some (dispatches s') := by
    intro none same
    rw [none,same]
    rfl
  -- a submit goes on with the same handle, or without one before and after
  have goes : ∀ u p, (s.submits u).handle = p.handle → dispatches (s.submitting u p) = dispatches s := by
    intro u p same
    rw [dispatches_submitting,← same]
    exact congrArg (fun q => { dispatches s with pending := q }) (Function.update_eq_self u (dispatches s).pending)
  cases (effect_step moved).2 with
  | crash => exact silent (shows_of_crash moved) rfl
  | spawn | assign => exact silent rfl rfl
  | wait i registerCnt => exact silent rfl (dispatches_requeue i _ rfl)
  | load u handle here => exact silent (by simp [shows,here]) (goes u _ (by rw [here]; rfl))
  | dispatch u handle ctxId here => exact silent (by simp [shows,here]) (goes u (.fetchOr ctxId handle) (by rw [here]; rfl))
  | fetchOr u ctxId handle here =>
    exact silent (by simp [shows,here]) (goes u (.fetchAdd ctxId (s.ctxStopFlag ctxId) handle) (by rw [here]; rfl))
  | fetchAdd u ctxId old handle here => exact silent (by simp [shows,here]) (goes u (.push ctxId handle) (by rw [here]; rfl))
  | dropped u ctxId here => exact silent (by simp [shows,here]) (goes u _ (by rw [here]; rfl))
  | written u ctxId here =>
    refine silent (by simp [shows,here]) ?_
    rw [dispatches_requeue ctxId _ (by rfl)]
    exact goes u _ (by rw [here]; rfl)
  | fetchAnd | stops => exact silent rfl rfl
  | subtracts i =>
    have same := dispatches_requeue (s := s) i { s.ctxs i with pc := .doIoSubmit } rfl
    exact silent rfl same
  | requestStop i k =>
    have same := dispatches_requeue (s := s) k { s.ctxs k with stop := true } rfl
    exact silent rfl same
  | notified i k => exact silent rfl ((dispatches_notified i k).trans (dispatches_requeue k _ rfl))
  | unnotified i k => exact silent rfl (dispatches_notified i k)
  | submit u handle may =>
    have none : (dispatches s).pending u = none := by simp only [dispatches,idle_of_mayCall may,Submission.handle]
    rw [shows,Machine.run_single]
    simp only [Dispatch.machine,Dispatch.step,none,if_true,dispatches_submitting,Submission.handle]
  | push u ctxId handle here =>
    have some : (dispatches s).pending u = some handle := by simp only [dispatches,here,Submission.handle]
    have shown : shows s (.proceed u) = [.place u ctxId handle] := by simp only [shows,here]
    rw [shown,Machine.run_single,dispatches_context,dispatches_submitting]
    simp only [Dispatch.machine,Dispatch.step,some,if_true,Submission.handle,Dispatch.append]
    rfl
  | resume u i handle may =>
    have same : dispatches (s.submitting u (.wakeUp i)) = dispatches s := goes u _ (by rw [idle_of_mayCall may]; rfl)
    rw [shows,Machine.run_single,dispatches_context,same]
    rfl
  | deinit i left open' =>
    have opened : (dispatches s).isOpen i = true := by simp only [dispatches,open',Bool.not_false]
    have left' : (dispatches s).queue i = (s.ctxs i).taskQueue := rfl
    rw [shows,Machine.run_single,dispatches_closed]
    simp only [Dispatch.machine,Dispatch.step,opened,left',and_self,if_true]
  | work i a c spawned open' may worked =>
    have opened : (dispatches s).isOpen i = true := by simp only [dispatches,open',Bool.not_false]
    rcases queue_of_work ((mayWork_cases may).imp_left And.left) worked with ⟨handle,left,took,put,front,_⟩ | ⟨took,queue⟩
    · have shown : shows s (.work i a) = [.take i handle] := by
        simp only [shows,took,put,Option.map_some,Option.map_none,Option.toList,List.append_nil]
      have here : (dispatches s).queue i = handle :: c.taskQueue := front
      rw [shown,Machine.run_single,dispatches_context]
      simp only [Dispatch.machine,Dispatch.step,here,opened,and_self,if_true]
    · cases put : puts (s.ctxs i) a with
      | none =>
        rw [put,Option.toList_none,List.append_nil] at queue
        exact silent (by simp [shows,took,put]) (dispatches_requeue i c queue)
      | some handle =>
        have shown : shows s (.work i a) = [.give i handle] := by simp [shows,took,put]
        rw [put] at queue
        rw [shown,Machine.run_single,dispatches_context,queue]
        rfl

private theorem scheduler_dispatches : (machine n Coro Ext).Simulates (Dispatch.machine (Submitter n Ext) (Fin n) Coro) shows
    fun s d => d = dispatches s := by
  constructor
  · intro s fresh
    obtain ⟨_,_,_,_,submits,_,_,_,closed,_⟩ := fresh
    refine ⟨dispatches s,⟨fun u => ?_,fun i => ?_⟩,rfl⟩
    · simp only [dispatches,submits,Submission.handle]
    · simp only [dispatches,closed,Bool.not_false]
  · intro s s' d a same moved
    exact ⟨dispatches s',same ▸ step_dispatches moved,rfl⟩

def events (s : State n Coro Ext) (actions : List (Action n Coro Ext)) :
    List (Dispatch.Event (Submitter n Ext) (Fin n) Coro) := (machine n Coro Ext).trace shows s actions

section
variable {s s' : State n Coro Ext} {actions : List (Action n Coro Ext)}

private theorem placed_of_run (fresh : Fresh s) (ran : (machine n Coro Ext).run s actions = some s') (u : Submitter n Ext) :
    Dispatch.accepted u (events s actions) =
      (Dispatch.placed u (events s actions)).map Prod.snd ++ (s'.submits u).handle.toList := by
  obtain ⟨_,shown,rfl⟩ := scheduler_dispatches.run actions s s' (dispatches s) rfl ran
  have handed := Dispatch.run_pending shown u
  have none : (dispatches s).pending u = none := by simp only [dispatches,fresh.2.2.2.2.1,Submission.handle]
  rwa [none,Option.toList_none,List.nil_append] at handed

private theorem executed_of_run (ran : (machine n Coro Ext).run s actions = some s') (i : Fin n) :
    (s.ctxs i).taskQueue ++ (Dispatch.arrived i (events s actions)).map Prod.snd =
      Dispatch.taken i (events s actions) ++ Dispatch.dropped i (events s actions) ++ (s'.ctxs i).taskQueue := by
  obtain ⟨_,shown,rfl⟩ := scheduler_dispatches.run actions s s' (dispatches s) rfl ran
  exact Dispatch.run_queue shown i

end

/-- The tasks of every submitter are placed in the order of its submits, all but the
last before its push; those that come from it to a context come in that order; and a
context executes what was in its queue and what comes to it once each and in that order,
but for what it leaves behind when it is closed. -/
structure InOrder (s s' : State n Coro Ext) (events : List (Dispatch.Event (Submitter n Ext) (Fin n) Coro)) : Prop where
  placed : ∀ u, Dispatch.accepted u events = (Dispatch.placed u events).map Prod.snd ++ (s'.submits u).handle.toList
  arrived : ∀ u i, ((Dispatch.arrived i events).filter fun entry => entry.1 = some u).map Prod.snd =
    ((Dispatch.placed u events).filter fun entry => entry.1 = i).map Prod.snd
  executed : ∀ i, (s.ctxs i).taskQueue ++ (Dispatch.arrived i events).map Prod.snd =
    Dispatch.taken i events ++ Dispatch.dropped i events ++ (s'.ctxs i).taskQueue

/-- Submits, contexts and their queues keep the order of the tasks, whoever races with them. -/
theorem tasks_run_in_order (s s' : State n Coro Ext) (actions : List (Action n Coro Ext)) (fresh : Fresh s)
    (ran : (machine n Coro Ext).run s actions = some s') : InOrder s s' (events s actions) where
  placed := placed_of_run fresh ran
  arrived u i := Dispatch.arrived_from u i _
  executed := executed_of_run ran

end

/-- A task submits another one to the second context, both end, and the worker of the
second context leaves its loop. -/
def submitAndLeave : List (Action 2 Nat Empty) :=
  submitAcross.dropLast ++ List.replicate 5 (Action.callback 1) ++ List.replicate 8 (Action.work 1 .step)

private theorem submit_and_leave_runs : ∃ s : State 2 Nat Empty,
    (machine 2 Nat Empty).guardedRun ClearsIdle (initial 2 Empty 1 fun i => if i = 0 then [5] else []) submitAndLeave = some s ∧
      (s.ctxs 1).pc = .returned := by
  have ran : ((machine 2 Nat Empty).guardedRun ClearsIdle (initial 2 Empty 1 fun i => if i = 0 then [5] else [])
      submitAndLeave).map (fun s => (s.ctxs 1).pc) = some .returned := by rfl
  exact Option.map_eq_some_iff.mp ran

theorem submit_and_leave_in_order : ∃ s : State 2 Nat Empty,
    (machine 2 Nat Empty).run (initial 2 Empty 1 fun i => if i = 0 then [5] else []) submitAndLeave = some s ∧
      InOrder (initial 2 Empty 1 fun i => if i = 0 then [5] else []) s
        (events (initial 2 Empty 1 fun i => if i = 0 then [5] else []) submitAndLeave) := by
  obtain ⟨s,ran,_⟩ := submit_and_leave_runs
  have ran := (Machine.guardedRun_meets _ _ _ _ ran).2
  exact ⟨s,ran,tasks_run_in_order _ s _ (initial_fresh _ _) ran⟩

section
variable [DecidableEq Coro] {s s' : State n Coro Empty}

theorem within_clean (within : (machine n Coro Empty).Within ClearsIdle s) : Awake s ∧ Stopping s ∧ Clean s := by
  have all : (Bits s ∧ Awake s) ∧ Stopping s ∧ Balanced s ∧ Clean s := by
    apply Machine.Within.invariant ?_ ?_ within
    · intro s fresh
      exact ⟨⟨fresh_bits s fresh,fresh_awake s fresh⟩,fresh_stopping s fresh,fresh_balanced s fresh,fresh_clean s fresh⟩
    · intro s s' a before idle moved
      obtain ⟨⟨bits,awake⟩,stopping,balanced,clean⟩ := before
      have effect := (effect_step moved).2
      exact ⟨⟨bits.effect effect,awake.effect effect⟩,stopping.effect bits effect,balanced.effect bits effect,
        clean.effect bits awake balanced idle effect⟩
  exact ⟨all.1.2,all.2.1,all.2.2.2⟩

/-- A worker leaves only when nothing is left to do anywhere. -/
theorem done_of_returned (within : (machine n Coro Empty).Within ClearsIdle s) {i : Fin n} (gone : (s.ctxs i).pc = .returned) :
    Done s := by
  obtain ⟨awake,stopping,clean⟩ := within_clean within
  have stop := (awake.watched i).seen (by rw [gone]; rfl)
  exact clean.done awake (clean.ended (stopping.stopped i stop))

/-- No context leaves a task behind when it is closed. -/
theorem nothing_dropped (actions : List (Action n Coro Empty)) (within : (machine n Coro Empty).Within ClearsIdle s)
    (meets : (machine n Coro Empty).Meets ClearsIdle s actions) (ran : (machine n Coro Empty).run s actions = some s')
    (k : Fin n) : Dispatch.dropped k (events s actions) = [] := by
  induction actions generalizing s with
  | nil => rfl
  | cons a rest ih =>
    obtain ⟨next,moved,ran⟩ := Option.bind_eq_some_iff.mp ran
    have later := ih (.step within meets.1 moved) (meets.2 next moved) ran
    have first : Dispatch.dropped k (shows s a) = [] := by
      cases a with
      | deinit i =>
        cases (effect_step moved).2 with
        | crash => rw [shows_of_crash moved]; rfl
        | deinit _ left => simp [shows,Dispatch.dropped,(done_of_returned within left).queues i]
      | work i a =>
        cases took : takes (s.ctxs i) a <;> cases put : puts (s.ctxs i) a <;> simp [shows,took,put,Dispatch.dropped]
      | proceed u => cases here : s.submits u <;> simp [shows,here,Dispatch.dropped]
      | _ => simp [shows,Dispatch.dropped]
    rw [events,Machine.trace,moved,Option.elim_some,Dispatch.dropped,List.flatMap_append]
    exact List.append_eq_nil_iff.mpr ⟨first,later⟩

/-- Every task that was submitted has been placed, and every context has executed, once
each and in their order, the tasks it had and those that came to it. -/
structure Executed (s : State n Coro Empty) (events : List (Dispatch.Event (Submitter n Empty) (Fin n) Coro)) : Prop where
  placed : ∀ u, Dispatch.accepted u events = (Dispatch.placed u events).map Prod.snd
  executed : ∀ k, Dispatch.taken k events = (s.ctxs k).taskQueue ++ (Dispatch.arrived k events).map Prod.snd

/-- When the first worker leaves its loop, everything has been executed. -/
theorem returned_executed (s s' : State n Coro Empty) (actions : List (Action n Coro Empty)) (fresh : Fresh s)
    (meets : (machine n Coro Empty).Meets ClearsIdle s actions) (ran : (machine n Coro Empty).run s actions = some s')
    (i : Fin n) (gone : (s'.ctxs i).pc = .returned) : Executed s (events s actions) := by
  have done := done_of_returned (meets.within (.start fresh) ran) gone
  constructor
  · intro u
    have placed := placed_of_run fresh ran u
    rwa [done.submits u,Submission.handle,Option.toList_none,List.append_nil] at placed
  · intro k
    have executed := executed_of_run ran k
    rw [nothing_dropped actions (.start fresh) meets ran k,done.queues k,List.append_nil,List.append_nil] at executed
    exact executed.symm

end

theorem submit_and_leave_executed : ∃ s : State 2 Nat Empty,
    (machine 2 Nat Empty).run (initial 2 Empty 1 fun i => if i = 0 then [5] else []) submitAndLeave = some s ∧
      (s.ctxs 1).pc = .returned ∧ Executed (initial 2 Empty 1 fun i => if i = 0 then [5] else [])
        (events (initial 2 Empty 1 fun i => if i = 0 then [5] else []) submitAndLeave) := by
  obtain ⟨s,ran,gone⟩ := submit_and_leave_runs
  obtain ⟨meets,ran⟩ := Machine.guardedRun_meets _ _ _ _ ran
  exact ⟨s,ran,gone,returned_executed _ s _ (initial_fresh _ _) meets ran 1 gone⟩

end TinyCoro.Scheduler
