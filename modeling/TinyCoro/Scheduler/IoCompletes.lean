import TinyCoro.Scheduler.ContextRuns
import TinyCoro.Context.Received

/-! What holds of the io and the wake-ups of a context alone holds of every context of
a running scheduler that is not closed yet. -/
namespace TinyCoro.Scheduler
open Library

variable {n : Nat} {Coro Ext : Type}

def Submission.pushes : Submission n Coro → Option (Fin n × Coro)
  | .push i handle => some (i,handle)
  | _ => none

def StopCb.writes : StopCb n → Option (Fin n)
  | .wakeUp i => some i
  | _ => none

/-- No eventfd's low field reaches 2^24. -/
def FewWrites (s : State n Coro Ext) : Action n Coro Ext → Prop
  | .work i a => Context.FewWrites (s.ctxs i) a
  | .callback w => ∀ i ∈ (s.stopCb w).writes, Context.FewWrites (s.ctxs i) .stopWake
  | _ => True

def State.awaitsNone (s : State n Coro Ext) (handle : Coro) : Prop := ∀ j, (s.ctxs j).awaiting handle = none

/-- Nothing but its completion queues a coroutine that awaits an operation, in any context. -/
def Undisturbed (s : State n Coro Ext) : Action n Coro Ext → Prop
  | .work _ (.submitSelf t) | .work _ (.push t) => s.awaitsNone t
  | .work i (.coAwait _) => ∀ t ∈ (s.ctxs i).pc.current, ∀ j, t ∉ (s.ctxs j).taskQueue
  | .resume _ _ handle => s.awaitsNone handle
  | .proceed u => ∀ p ∈ (s.submits u).pushes, s.awaitsNone p.2
  | _ => True

/-- What other threads do at any time, and the worker without a condition. -/
def plain : Context.Action Coro → Bool
  | .step | .registerWait _ | .wake | .requestStop => true
  | _ => false

variable [DecidableEq Coro] [DecidableEq Ext] [Fintype Ext]

section
variable {s s' : State n Coro Ext} {a : Action n Coro Ext} {i : Fin n}

omit [DecidableEq Ext] in
/-- A condition on the steps of a context, from what the scheduler's steps are to it. -/
theorem meets_seen {ok : Context.State Coro → Context.Action Coro → Prop} (always : ∀ c b, plain b = true → ok c b)
    (work : ∀ b, a = .work i b → ok (s.view i) b) (resume : ∀ u handle, a = .resume u i handle → ok (s.view i) (.push handle))
    (push : ∀ u handle, a = .proceed u → s.submits u = .push i handle → ok (s.view i) (.push handle))
    (stopWake : ∀ w, a = .callback w → s.stopCb w = .wakeUp i → ok (s.view i) .stopWake) :
    (Context.machine Coro).Meets ok (s.view i) (seen i s a) := by
  cases a with
  | start | submit | deinit => trivial
  | work k b =>
    apply Machine.meets_single
    rintro rfl
    exact work b rfl
  | wait => exact Machine.meets_single _ fun _ => always _ _ rfl
  | resume u k handle =>
    apply Machine.meets_single
    rintro rfl
    exact resume u handle rfl
  | proceed u =>
    cases here : s.submits u with
    | idle | load | dispatch | fetchOr | fetchAdd => simp only [seen,here]; trivial
    | push k handle =>
      simp only [seen,here]
      apply Machine.meets_single
      rintro rfl
      exact push u handle rfl here
    | wakeUp => simp only [seen,here]; exact Machine.meets_single _ fun _ => always _ _ rfl
  | callback w =>
    cases here : s.stopCb w with
    | fetchAnd => simp only [seen,here]; trivial
    | fetchSub | requestStop => simp only [seen,here]; exact Machine.meets_single _ fun _ => always _ _ rfl
    | wakeUp k =>
      simp only [seen,here]
      apply Machine.Meets.append
      · apply Machine.meets_single
        rintro rfl
        exact stopWake w rfl here
      · exact fun _ => Machine.meets_single _ fun _ => always _ _ rfl

omit [DecidableEq Ext] in
theorem meets_few (few : FewWrites s a) : (Context.machine Coro).Meets Context.FewWrites (s.view i) (seen i s a) := by
  apply meets_seen
  · intro c b same
    cases b <;> trivial
  · rintro b rfl
    exact few
  · exact fun _ _ _ => trivial
  · exact fun _ _ _ _ => trivial
  · rintro w rfl here
    exact few i (by rw [here]; rfl)

omit [DecidableEq Ext] in
private theorem meets_undisturbed (undisturbed : Undisturbed s a) :
    (Context.machine Coro).Meets Context.Undisturbed (s.view i) (seen i s a) := by
  apply meets_seen
  · intro c b same
    cases b <;> trivial
  · rintro b rfl
    cases b with
    | submitSelf t | push t => exact undisturbed i
    | coAwait ptr => exact fun t here => undisturbed t here i
    | _ => trivial
  · rintro u handle rfl
    exact undisturbed i
  · rintro u handle rfl here
    exact undisturbed (i,handle) (by rw [here]; rfl) i
  · exact fun _ _ _ => trivial

/-- What every step of a context alone keeps, each step of the scheduler keeps. -/
theorem carried {inv : Context.State Coro → Prop} {ok : Context.State Coro → Context.Action Coro → Prop}
    (preserved : ∀ c c' b, inv c → ok c b → Context.step c b = some c' → inv c') (before : inv (s.view i))
    (meets : (Context.machine Coro).Meets ok (s.view i) (seen i s a)) (moved : step s a = some s') (open' : s'.closed i = false) :
    inv (s'.view i) :=
  Machine.Meets.invariant inv preserved before meets (follows moved open')

omit [DecidableEq Coro] [DecidableEq Ext] in
theorem fresh_view (fresh : Fresh s) : Context.Fresh { s.view i with taskQueue := [], efd := 0 } := by
  obtain ⟨_,_,ctxs,stopCb,submits,_⟩ := fresh
  obtain ⟨_,_,stop,_,rest⟩ := ctxs i
  have none : s.waking i = 0 := by simp [State.waking,submits,Submission.wakes]
  have none' : s.stopping i = 0 := by simp [State.stopping,stopCb,StopCb.wakes]
  exact ⟨rfl,none,stop,none',rest⟩

omit [DecidableEq Ext] in
private theorem fresh_tracks (fresh : Fresh s) : Context.Tracked (s.view i) := by
  have tracked := Context.fresh_tracked { s.view i with efd := 0 } (fresh_view fresh)
  exact ⟨{ tracked.counters with },{ tracked.ops with },tracked.reaps,tracked.null,{ tracked.receives with },{ tracked.leaves with }⟩

theorem run_tracks {actions : List (Action n Coro Ext)} {s₀ : State n Coro Ext} (fresh : Fresh s₀)
    (ran : (machine n Coro Ext).run s₀ actions = some s)
    (meets : (machine n Coro Ext).Meets Undisturbed s₀ actions) (open' : s.closed i = false) : Context.Tracked (s.view i) := by
  apply Machine.Meets.invariant (fun s => s.closed i = false → Context.Tracked (s.view i)) _ _ meets ran open'
  · intro s s' a before undisturbed moved open'
    exact carried (fun _ _ _ tracked ok moved => tracked.step ok moved) (before (open_before moved open'))
      (meets_undisturbed undisturbed) moved open'
  · exact fun _ => fresh_tracks fresh

end

/-- The io of every context of a running scheduler: the kernel completes each operation
once, its coroutine gets its own result once, and the worker does not leave before. -/
theorem io_hands_over (actions : List (Action n Coro Ext)) (s₀ s : State n Coro Ext) (fresh : Fresh s₀)
    (ran : (machine n Coro Ext).run s₀ actions = some s)
    (meets : (machine n Coro Ext).Meets Undisturbed s₀ actions) (i : Fin n) (open' : s.closed i = false) :
    Context.HandsOver (s.ctxs i) := by
  have hands := (run_tracks fresh ran meets open').handsOver
  exact ⟨{ hands.completes with },{ hands.receives with },hands.returned⟩

instance (s : State n Coro Ext) (handle : Coro) : Decidable (s.awaitsNone handle) := inferInstanceAs (Decidable (∀ _, _))

instance (s : State n Coro Ext) : (a : Action n Coro Ext) → Decidable (Undisturbed s a)
  | .work _ (.submitSelf t) | .work _ (.push t) => inferInstanceAs (Decidable (s.awaitsNone t))
  | .work i (.coAwait _) => inferInstanceAs (Decidable (∀ t ∈ (s.ctxs i).pc.current, ∀ j, t ∉ (s.ctxs j).taskQueue))
  | .resume _ _ handle => inferInstanceAs (Decidable (s.awaitsNone handle))
  | .proceed u => inferInstanceAs (Decidable (∀ p ∈ (s.submits u).pushes, s.awaitsNone p.2))
  | .work _ .step | .work _ (.accept _) | .work _ (.io _ _ _) | .work _ .suspend | .work _ (.registerWait _) | .work _ .wake
  | .work _ .requestStop | .work _ .stopWake | .work _ (.post _ _ _ _)
  | .start | .wait _ _ | .submit _ _ | .callback _ | .deinit _ => inferInstanceAs (Decidable True)

/-- The task of one context connects a socket, and goes on when the kernel has completed
the operation; then the worker stops itself and leaves. -/
def connectThenLeave (i : Fin 1) : List (Action 1 Nat Empty) :=
  List.replicate 2 Action.start ++ List.replicate 2 (Action.work i .step) ++ [Action.work i (.io .tcpConnect 5 0),.work i (.coAwait 0)] ++
    List.replicate 4 (Action.work i .step) ++ [Action.work i (.accept 1)] ++ List.replicate 8 (Action.work i .step) ++
    [Action.work i (.post [] [] ⟨0,0⟩ 0)] ++ List.replicate 9 (Action.work i .step) ++ [Action.work i .suspend] ++
    List.replicate 5 (Action.work i .step) ++ List.replicate 4 (Action.callback i) ++ List.replicate 8 (Action.work i .step)

theorem connect_then_leave_hands_over : ∃ s : State 1 Nat Empty,
    (machine 1 Nat Empty).guardedRun Undisturbed (initial 1 Empty 0 fun _ => [5]) (connectThenLeave 0) = some s ∧
    (s.ctxs 0).pc = .returned ∧ (s.ctxs 0).received = [(0,5)] ∧ Context.HandsOver (s.ctxs 0) := by
  have ran : ((machine 1 Nat Empty).guardedRun Undisturbed (initial 1 Empty 0 fun _ => [5]) (connectThenLeave 0)).map
      (fun s => ((s.ctxs 0).pc,(s.ctxs 0).received,s.closed 0)) = some (.returned,[(0,5)],false) := by rfl
  obtain ⟨s,reached,shape⟩ := Option.map_eq_some_iff.mp ran
  simp only [Prod.mk.injEq] at shape
  obtain ⟨left,received,open'⟩ := shape
  obtain ⟨meets,reaches⟩ := Machine.guardedRun_meets _ _ _ _ reached
  exact ⟨s,reached,left,received,io_hands_over _ _ s (initial_fresh _ _) reaches meets 0 open'⟩

end TinyCoro.Scheduler
