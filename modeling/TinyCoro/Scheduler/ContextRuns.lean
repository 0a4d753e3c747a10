import TinyCoro.Scheduler.NeverHangs
import TinyCoro.Context.Wakeup
import TinyCoro.Library.Settling

/-! Each context of the scheduler runs as a context of its own: what submitters,
components and stop callbacks do to it are steps of its other threads. -/
namespace TinyCoro.Scheduler
open Library TwoParties

variable {n : Nat} {Coro Ext : Type}

/-- Between the push and the `wake_up` of a `submit_task` of context `i`. -/
def Submission.wakes (i : Fin n) : Submission n Coro → Nat
  | .wakeUp k => if k = i then 1 else 0
  | _ => 0

/-- Between the two steps of the `notify_stop` of context `i`. -/
def StopCb.wakes (i : Fin n) : StopCb n → Nat
  | .wakeUp k => if k = i then 1 else 0
  | _ => 0

/-- A context beside a number of other threads. -/
def beside (waking stopping : Nat) (c : Context.State Coro) : Context.State Coro := { c with waking := waking, stopping := stopping }

section
variable [DecidableEq Coro] {c c' : Context.State Coro} {waking stopping : Nat}

omit [DecidableEq Coro] in
private theorem beside_resume (handle : Coro) [DecidableEq Coro] :
    (beside waking stopping c).resume handle = beside waking stopping (c.resume handle) := by
  unfold Context.State.resume beside
  cases c.awaiting handle <;> rfl

/-- The worker's own steps do not depend on the other threads. -/
theorem beside_advance (moved : Context.advance c = some c') :
    Context.advance (beside waking stopping c) = some (beside waking stopping c') := by
  unfold Context.advance at moved ⊢
  have same : (beside waking stopping c).pc = c.pc := rfl
  rw [same]
  cases pc : c.pc with
  | exec left =>
    cases left with
    | zero =>
      simp only [pc,Option.some.injEq] at moved
      subst moved
      rfl
    | succ left =>
      have queue : (beside waking stopping c).taskQueue = c.taskQueue := rfl
      simp only [pc] at moved
      simp only [queue]
      cases front : c.taskQueue with
      | nil => simp [front] at moved
      | cons handle rest =>
        simp only [front,Option.some.injEq] at moved
        subst moved
        simp only [beside_resume]
        rfl
  | handleCqe i cnt =>
    have ring : (beside waking stopping c).cq = c.cq := rfl
    simp only [pc] at moved
    simp only [ring]
    split at moved
    next more =>
      rw [if_pos more]
      cases cqe : c.cq[i]? with
      | none => simp [cqe] at moved
      | some cqe' =>
        have infos : (beside waking stopping c).info = c.info := rfl
        simp only [cqe,infos] at moved ⊢
        cases owner : (c.info cqe'.entry.userData).handle with
        | none =>
          simp only [owner,Option.some.injEq] at moved
          subst moved
          rfl
        | some handle =>
          simp only [owner,Option.some.injEq] at moved
          subst moved
          rfl
    next last =>
      rw [if_neg last]
      cases moved
      rfl
  | wakeSelf left handle | wakeUp i cnt =>
    have writes : (beside waking stopping c).canWrite Context.taskFlag ↔ c.canWrite Context.taskFlag := Iff.rfl
    simp only [pc] at moved
    simp only [writes]
    split at moved
    next free =>
      rw [if_pos free]
      cases moved
      rfl
    next => contradiction
  | doIoSubmit | waitEventfd =>
    simp only [pc] at moved
    split at moved
    next => contradiction
    next go =>
      cases moved
      exact if_neg go
  | running left handle | returned | aborted => simp [pc] at moved
  | _ =>
    simp only [pc,Option.some.injEq] at moved
    subst moved
    rfl

private theorem beside_work {a : Context.Action Coro} (work : isWork a = true) (moved : Context.step c a = some c') :
    Context.step (beside waking stopping c) a = some (beside waking stopping c') := by
  have same : (beside waking stopping c).pc = c.pc := rfl
  cases a with
  | step | registerWait | push | wake | requestStop | stopWake => contradiction
  | post before after entry res =>
    simp only [Context.step] at moved ⊢
    split at moved
    next accepted =>
      have accepted : (beside waking stopping c).inKernel = before ++ entry::after := accepted
      rw [if_pos accepted]
      cases moved
      rfl
    next => contradiction
  | accept count | io type data ptr | coAwait ptr =>
    simp only [Context.step,same] at moved ⊢
    split at moved
    next pc =>
      split at moved
      next free =>
        rw [if_pos (by exact free)]
        cases moved
        rfl
      next => contradiction
    next => contradiction
  | submitSelf t | suspend =>
    simp only [Context.step,same] at moved ⊢
    split at moved
    next pc =>
      cases moved
      rfl
    next => contradiction

end

section
variable [Fintype Ext]

def State.waking (s : State n Coro Ext) (i : Fin n) : Nat := ∑ u, (s.submits u).wakes i

def State.stopping (s : State n Coro Ext) (i : Fin n) : Nat := ∑ w, (s.stopCb w).wakes i

/-- A context with the threads that are about to write its eventfd. -/
def State.view (s : State n Coro Ext) (i : Fin n) : Context.State Coro := beside (s.waking i) (s.stopping i) (s.ctxs i)

end

variable [DecidableEq Coro] [DecidableEq Ext]

/-- What a step of the scheduler is to context `i`. -/
def seen (i : Fin n) (s : State n Coro Ext) : Action n Coro Ext → List (Context.Action Coro)
  | .start | .submit _ _ | .deinit _ => []
  | .work k a => if k = i then [a] else []
  | .wait k registerCnt => if k = i then [.registerWait registerCnt] else []
  | .resume _ k handle => if k = i then [.push handle] else []
  | .proceed u =>
    match s.submits u with
    | .push k handle => if k = i then [.push handle] else []
    | .wakeUp k => if k = i then [.wake] else []
    | _ => []
  | .callback w =>
    match s.stopCb w with
    | .fetchAnd => []
    | .fetchSub cnt => if w = i ∧ s.stopToken ≠ cnt then [.step] else []
    | .requestStop k => if k = i ∧ s.job k then [.requestStop] else []
    -- the callback returns after the last context
    | .wakeUp k =>
      (if k = i then [.stopWake] else []) ++ if w = i ∧ next k = none ∧ ¬ (s.closed k ∧ s.asserts) then [.step] else []

section
variable [Fintype Ext] {s s' t : State n Coro Ext} {i : Fin n} {as bs : List (Context.Action Coro)}

def Follows (s s' : State n Coro Ext) (i : Fin n) (as : List (Context.Action Coro)) : Prop :=
  (Context.machine Coro).run (s.view i) as = some (s'.view i)

omit [DecidableEq Coro] in
private theorem waking_submitting {u : Submitter n Ext} {p : Submission n Coro} (submits : s'.submits = Function.update s.submits u p) :
    s'.waking i + (s.submits u).wakes i = s.waking i + p.wakes i := by
  rw [State.waking,submits]
  exact sum_update (Submission.wakes i) s.submits u p

omit [DecidableEq Coro] [DecidableEq Ext] [Fintype Ext] in
private theorem stopping_calling {w : Fin n} {p : StopCb n} (stopCb : s'.stopCb = Function.update s.stopCb w p) :
    s'.stopping i + (s.stopCb w).wakes i = s.stopping i + p.wakes i := by
  rw [State.stopping,stopCb]
  exact sum_update (StopCb.wakes i) s.stopCb w p

omit [DecidableEq Ext] in
theorem Follows.still (ctx : s'.ctxs i = s.ctxs i) (waking : s'.waking i = s.waking i) (stopping : s'.stopping i = s.stopping i) :
    Follows s s' i [] := by
  have kept : s'.view i = s.view i := by rw [State.view,State.view,ctx,waking,stopping]
  rw [Follows,kept]
  rfl

omit [DecidableEq Ext] in
theorem Follows.one {a : Context.Action Coro} (moved : Context.step (s.view i) a = some (s'.view i)) : Follows s s' i [a] := by
  rw [Follows,Machine.run_single]
  exact moved

omit [DecidableEq Ext] in
theorem Follows.trans (first : Follows s t i as) (second : Follows t s' i bs) : Follows s s' i (as ++ bs) := by
  rw [Follows,Machine.run_append,first]
  exact second

theorem Follows.submitting {u : Submitter n Ext} {p : Submission n Coro} (submits : s'.submits = Function.update s.submits u p)
    (before : (s.submits u).wakes i = 0) (after : p.wakes i = 0) (ctx : s'.ctxs i = s.ctxs i) (stopCb : s'.stopCb = s.stopCb) :
    Follows s s' i [] := by
  have waking := waking_submitting (i := i) submits
  apply Follows.still ctx
  · omega
  · rw [State.stopping,State.stopping,stopCb]

private theorem Follows.pushing {u : Submitter n Ext} {k : Fin n} {handle : Coro}
    (submits : s'.submits = Function.update s.submits u (.wakeUp k))
    (before : (s.submits u).wakes i = 0) (stopCb : s'.stopCb = s.stopCb)
    (ctxs : s'.ctxs = Function.update s.ctxs k { s.ctxs k with taskQueue := (s.ctxs k).taskQueue ++ [handle] }) :
    Follows s s' i (if k = i then [.push handle] else []) := by
  have waking := waking_submitting (i := i) submits
  have stopping : s'.stopping i = s.stopping i := by rw [State.stopping,State.stopping,stopCb]
  rw [before,Nat.add_zero] at waking
  by_cases mine : k = i
  · subst mine
    have more : s'.waking k = s.waking k + 1 := by rw [waking,Submission.wakes,if_pos rfl]
    rw [if_pos rfl]
    apply Follows.one
    rw [State.view,State.view,stopping,more,ctxs,Function.update_self]
    rfl
  · rw [Submission.wakes,if_neg mine] at waking
    rw [if_neg mine]
    apply Follows.still _ waking stopping
    rw [ctxs,Function.update_of_ne (Ne.symm mine)]

theorem Follows.writing {u : Submitter n Ext} {k : Fin n} (submits : s'.submits = Function.update s.submits u .idle)
    (before : s.submits u = .wakeUp k) (stopCb : s'.stopCb = s.stopCb)
    (ctxs : s'.ctxs = Function.update s.ctxs k ((s.ctxs k).writeEventfd Context.taskFlag))
    (free : (s.ctxs k).canWrite Context.taskFlag) : Follows s s' i (if k = i then [.wake] else []) := by
  have waking := waking_submitting (i := i) submits
  have stopping : s'.stopping i = s.stopping i := by rw [State.stopping,State.stopping,stopCb]
  rw [before] at waking
  by_cases mine : k = i
  · subst mine
    have fewer : s.waking k = s'.waking k + 1 := by simpa [Submission.wakes] using waking.symm
    rw [if_pos rfl]
    apply Follows.one
    have allowed : 0 < (s.view k).waking ∧ (s.view k).canWrite Context.taskFlag := by
      refine ⟨?_,free⟩
      simp [State.view,beside,fewer]
    simp only [Context.step,if_pos allowed]
    simp [State.view,beside,stopping,fewer,ctxs,Context.State.writeEventfd]
  · rw [if_neg mine]
    apply Follows.still _ _ stopping
    · rw [ctxs,Function.update_of_ne (Ne.symm mine)]
    · simpa [Submission.wakes,mine] using waking

omit [DecidableEq Ext] in
theorem Follows.calling {w : Fin n} {p : StopCb n} (stopCb : s'.stopCb = Function.update s.stopCb w p)
    (before : (s.stopCb w).wakes i = 0) (after : p.wakes i = 0) (ctx : s'.ctxs i = s.ctxs i) (submits : s'.submits = s.submits) :
    Follows s s' i [] := by
  have stopping := stopping_calling (i := i) stopCb
  apply Follows.still ctx
  · rw [State.waking,State.waking,submits]
  · omega

omit [DecidableEq Ext] in
private theorem Follows.returning {w : Fin n} (stopCb : s'.stopCb = Function.update s.stopCb w .fetchAnd)
    (before : (s.stopCb w).wakes i = 0) (within : (s.ctxs w).pc = .stopCb)
    (ctxs : s'.ctxs = Function.update s.ctxs w { s.ctxs w with pc := .doIoSubmit })
    (submits : s'.submits = s.submits) : Follows s s' i (if w = i then [.step] else []) := by
  have stopping := stopping_calling (i := i) stopCb
  have waking : s'.waking i = s.waking i := by rw [State.waking,State.waking,submits]
  have silent : (StopCb.fetchAnd : StopCb n).wakes i = 0 := rfl
  rw [before,silent,Nat.add_zero,Nat.add_zero] at stopping
  by_cases mine : w = i
  · subst mine
    rw [if_pos rfl]
    apply Follows.one
    have here : (s.view w).pc = .stopCb := within
    simp only [Context.step,Context.advance,here]
    rw [State.view,State.view,waking,stopping,ctxs,Function.update_self]
    rfl
  · rw [if_neg mine]
    apply Follows.still _ waking stopping
    rw [ctxs,Function.update_of_ne (Ne.symm mine)]

omit [DecidableEq Ext] in
private theorem Follows.requesting {w k : Fin n} (stopCb : s'.stopCb = Function.update s.stopCb w (.wakeUp k))
    (before : (s.stopCb w).wakes i = 0) (submits : s'.submits = s.submits)
    (ctxs : s'.ctxs = Function.update s.ctxs k { s.ctxs k with stop := true }) :
    Follows s s' i (if k = i then [.requestStop] else []) := by
  have stopping := stopping_calling (i := i) stopCb
  have waking : s'.waking i = s.waking i := by rw [State.waking,State.waking,submits]
  rw [before,Nat.add_zero] at stopping
  by_cases mine : k = i
  · subst mine
    have more : s'.stopping k = s.stopping k + 1 := by rw [stopping,StopCb.wakes,if_pos rfl]
    rw [if_pos rfl]
    apply Follows.one
    rw [State.view,State.view,waking,more,ctxs,Function.update_self]
    rfl
  · rw [StopCb.wakes,if_neg mine] at stopping
    rw [if_neg mine]
    apply Follows.still _ waking stopping
    rw [ctxs,Function.update_of_ne (Ne.symm mine)]

omit [DecidableEq Ext] in
theorem Follows.notifying {w k : Fin n} {p : StopCb n} (stopCb : s'.stopCb = Function.update s.stopCb w p) (here : s.stopCb w = .wakeUp k)
    (after : p.wakes i = 0) (submits : s'.submits = s.submits) (ctxs : s'.ctxs = Function.update s.ctxs k ((s.ctxs k).writeEventfd 1))
    (free : (s.ctxs k).canWrite 1) : Follows s s' i (if k = i then [.stopWake] else []) := by
  have stopping := stopping_calling (i := i) stopCb
  have waking : s'.waking i = s.waking i := by rw [State.waking,State.waking,submits]
  rw [here,after,Nat.add_zero] at stopping
  by_cases mine : k = i
  · subst mine
    have fewer : s.stopping k = s'.stopping k + 1 := by simpa [StopCb.wakes] using stopping.symm
    rw [if_pos rfl]
    apply Follows.one
    have allowed : 0 < (s.view k).stopping ∧ (s.view k).canWrite 1 := by
      refine ⟨?_,free⟩
      simp [State.view,beside,fewer]
    simp only [Context.step,if_pos allowed]
    simp [State.view,beside,waking,fewer,ctxs,Context.State.writeEventfd]
  · rw [if_neg mine]
    apply Follows.still _ waking
    · simpa [StopCb.wakes,mine] using stopping
    · rw [ctxs,Function.update_of_ne (Ne.symm mine)]

omit [DecidableEq Coro] [DecidableEq Ext] [Fintype Ext] in
private theorem notified_again {w k : Fin n} :
    ({ s with stopCb := Function.update s.stopCb w (.after k) } : State n Coro Ext).notified w k = s.notified w k := by
  unfold State.notified StopCb.after
  cases next k with
  | none | some k' => simp [State.endCallback,State.context]

omit [DecidableEq Coro] [DecidableEq Ext] [Fintype Ext] in
private theorem after_wakes {k : Fin n} : (StopCb.after k).wakes i = 0 := by
  unfold StopCb.after
  cases next k <;> rfl

omit [DecidableEq Ext] in
theorem Follows.notified {w k : Fin n} (within : (s.ctxs w).pc = .stopCb) (here : s.stopCb w = .after k) :
    Follows s (s.notified w k) i (if w = i ∧ next k = none then [.step] else []) := by
  have stopCb : (s.notified w k).stopCb = Function.update s.stopCb w (.after k) := notified_stopCb s w k
  have silent : (s.stopCb w).wakes i = 0 := by rw [here,after_wakes]
  rcases notified_ctxs s w k with ⟨ctxs,k',more⟩ | ⟨last,ctxs⟩
  · rw [if_neg (by simp [more])]
    exact .calling stopCb silent after_wakes (by rw [ctxs]) (notified_submits s w k)
  · rw [StopCb.after,last] at stopCb
    simp only [last,and_true]
    exact .returning stopCb silent within ctxs (notified_submits s w k)

omit [Fintype Ext] in
/-- A step that ends the process does nothing to a context that is still there. -/
theorem crashed_seen {a : Action n Coro Ext} (moved : step s a = some s') (crashed : s'.crashed = true) (open' : s.closed i = false) :
    seen i s a = [] := by
  unfold step at moved
  split at moved
  next => contradiction
  next alive =>
  cases a with
  | start | submit | deinit => rfl
  | work j b =>
    simp only [act,Option.ite_none_right_eq_some,Option.map_eq_some_iff] at moved
    obtain ⟨_,c,_,rfl⟩ := moved
    exact absurd crashed alive
  | wait | resume =>
    simp only [act,Option.ite_none_right_eq_some,Option.some.injEq] at moved
    obtain ⟨_,rfl⟩ := moved
    exact absurd crashed alive
  | proceed u =>
    cases here : s.submits u with
    | idle | load | dispatch | fetchOr | fetchAdd => simp only [seen,here]
    | push k handle =>
      simp only [act,Scheduler.proceed,here,Option.some.injEq] at moved
      subst moved
      exact absurd crashed alive
    | wakeUp k =>
      simp only [act,Scheduler.proceed,here] at moved
      by_cases closed : s.closed k = true
      · have other : k ≠ i := fun same => by rw [same,open'] at closed; contradiction
        simp only [seen,here,if_neg other]
      · simp only [if_neg closed,Option.ite_none_right_eq_some,Option.some.injEq] at moved
        obtain ⟨_,rfl⟩ := moved
        exact absurd crashed alive
  | callback w =>
    simp only [act,Option.ite_none_right_eq_some] at moved
    obtain ⟨_,moved⟩ := moved
    cases here : s.stopCb w with
    | fetchAnd => simp only [seen,here]
    | fetchSub cnt =>
      simp only [Scheduler.callback,here] at moved
      split at moved
      all_goals
        cases moved
        exact absurd crashed alive
    | requestStop k =>
      simp only [Scheduler.callback,here] at moved
      by_cases assigned : s.job k = true
      · rw [if_pos assigned] at moved
        cases moved
        exact absurd crashed alive
      · simp only [seen,here,assigned,and_false,if_false,Bool.false_eq_true]
    | wakeUp k =>
      simp only [Scheduler.callback,here] at moved
      by_cases closed : s.closed k = true
      · have other : k ≠ i := fun same => by rw [same,open'] at closed; contradiction
        by_cases aborts : s.asserts = true
        · simp [seen,here,other,closed,aborts]
        · rw [if_pos closed,if_neg aborts] at moved
          cases moved
          exact absurd crashed (by rw [notified_crashed]; exact alive)
      · simp only [if_neg closed,Option.ite_none_right_eq_some,Option.some.injEq] at moved
        obtain ⟨_,rfl⟩ := moved
        exact absurd crashed (by rw [notified_crashed]; exact alive)

theorem follows {a : Action n Coro Ext} (moved : step s a = some s') (open' : s'.closed i = false) : Follows s s' i (seen i s a) := by
  obtain ⟨alive,effect⟩ := effect_step moved
  cases effect with
  | crash =>
    rw [crashed_seen moved rfl open']
    exact .still rfl rfl rfl
  | spawn | assign => exact .still rfl rfl rfl
  | work j b c spawned stays may worked =>
    by_cases mine : j = i
    · subst mine
      have after : (s.context j c).view j = beside (s.waking j) (s.stopping j) c := by
        simp [State.view,State.context,State.waking,State.stopping]
      rw [seen,if_pos rfl]
      apply Follows.one
      rw [after]
      rcases mayWork_cases may with ⟨rfl,_⟩ | work
      · exact beside_advance worked
      · exact beside_work work worked
    · rw [seen,if_neg mine]
      exact .still (Function.update_of_ne (Ne.symm mine) ..) rfl rfl
  | wait j registerCnt =>
    by_cases mine : j = i
    · subst mine
      rw [seen,if_pos rfl]
      apply Follows.one
      simp [State.view,State.context,Context.step,beside,State.waking,State.stopping]
    · rw [seen,if_neg mine]
      exact .still (Function.update_of_ne (Ne.symm mine) ..) rfl rfl
  | submit u handle may => exact .submitting rfl (by rw [idle_of_mayCall may]; rfl) rfl rfl rfl
  | load u handle here | dispatch u handle ctxId here | fetchOr u ctxId handle here | fetchAdd u ctxId old handle here =>
    simp only [seen,here]
    exact .submitting rfl (by rw [here]; rfl) rfl rfl rfl
  | resume u k handle may => exact .pushing rfl (by rw [idle_of_mayCall may]; rfl) rfl rfl
  | push u k handle here =>
    simp only [seen,here]
    exact .pushing rfl (by rw [here]; rfl) rfl rfl
  | written u k here stays =>
    have free : (s.ctxs k).canWrite Context.taskFlag := by
      by_contra full
      simp [step,act,proceed,alive,here,stays,full] at moved
    simp only [seen,here]
    exact .writing rfl here rfl rfl free
  | dropped u k here closed =>
    have other : k ≠ i := by
      rintro rfl
      exact absurd closed (by simpa [State.submitting] using open')
    simp only [seen,here,if_neg other]
    exact .submitting rfl (by rw [here]; simp [Submission.wakes,other]) rfl rfl rfl
  | fetchAnd w within here =>
    simp only [seen,here]
    exact .calling rfl (by rw [here]; rfl) rfl rfl rfl
  | stops w cnt within here last =>
    simp only [seen,here,last,ne_eq,not_true_eq_false,and_false,if_false]
    exact .calling rfl (by rw [here]; rfl) rfl rfl rfl
  | subtracts w cnt within here more =>
    simp only [seen,here,ne_eq,more,not_false_eq_true,and_true]
    exact .returning rfl (by rw [here]; rfl) within rfl rfl
  | requestStop w k within here assigned =>
    simp only [seen,here,assigned,and_true]
    exact .requesting rfl (by rw [here]; rfl) rfl rfl
  | notified w k within here stays =>
    have free : (s.ctxs k).canWrite 1 := by
      by_contra full
      simp [step,act,callback,atStopCb,alive,within,here,stays,full] at moved
    simp only [seen,here,stays,Bool.false_eq_true,false_and,not_false_eq_true,and_true]
    let t : State n Coro Ext := { s.context k ((s.ctxs k).writeEventfd 1) with stopCb := Function.update s.stopCb w (.after k) }
    have first : Follows s t i (if k = i then [.stopWake] else []) := .notifying rfl here after_wakes rfl rfl free
    have still : (t.ctxs w).pc = .stopCb := (update_keeps Context.State.pc (by rfl) w).trans within
    have second : Follows t (t.notified w k) i (if w = i ∧ next k = none then [.step] else []) := .notified still (Function.update_self ..)
    rw [show t.notified w k = (s.context k ((s.ctxs k).writeEventfd 1)).notified w k from notified_again] at second
    exact first.trans second
  | unnotified w k within here closed =>
    have other : k ≠ i := by
      rintro rfl
      rw [notified_closed,closed] at open'
      contradiction
    have silent : s.asserts = false := by
      by_contra aborts
      simp only [step,act,callback,atStopCb,alive,within,here,closed,if_true,Bool.false_eq_true,if_false] at moved
      rw [if_pos (by simpa using aborts),Option.some.injEq] at moved
      have ends : (s.notified w k).crashed = true := by rw [← moved]
      rw [notified_crashed,alive] at ends
      contradiction
    simp only [seen,here,if_neg other,silent,Bool.false_eq_true,and_false,not_false_eq_true,and_true,List.nil_append]
    let t : State n Coro Ext := { s with stopCb := Function.update s.stopCb w (.after k) }
    have first : Follows s t i [] := .calling rfl (by rw [here]; simp [StopCb.wakes,other]) after_wakes rfl rfl
    have second : Follows t (t.notified w k) i (if w = i ∧ next k = none then [.step] else []) := .notified within (Function.update_self ..)
    rw [show t.notified w k = s.notified w k from notified_again] at second
    exact first.trans second
  | deinit j left stays =>
    have other : j ≠ i := by
      rintro rfl
      simp at open'
    exact .still (Function.update_of_ne other.symm ..) rfl rfl

omit [Fintype Ext] in
theorem open_before {a : Action n Coro Ext} (moved : step s a = some s') (open' : s'.closed i = false) : s.closed i = false := by
  obtain ⟨_,effect⟩ := effect_step moved
  cases effect with
  | deinit j =>
    by_cases mine : i = j
    · subst mine
      simp at open'
    · simpa [Function.update_of_ne mine] using open'
  | notified | unnotified => simpa [State.context] using open'
  | _ => exact open'

/-- In every run of the scheduler each context, up to its `deinit`, runs as it does
alone: with the steps of its worker and its coroutines, the pushes and wake-ups of all
submitters and the stop requests of all callbacks as those of its other threads. -/
theorem contexts_run (actions : List (Action n Coro Ext)) (s s' : State n Coro Ext) (i : Fin n)
    (ran : (machine n Coro Ext).run s actions = some s') (open' : s'.closed i = false) :
    (Context.machine Coro).run (s.view i) ((machine n Coro Ext).trace (seen i) s actions) = some (s'.view i) := by
  have both : s.closed i = false ∧ Follows s s' i ((machine n Coro Ext).trace (seen i) s actions) := by
    induction actions generalizing s with
    | nil =>
      cases Option.some.inj ran
      exact ⟨open',.still rfl rfl rfl⟩
    | cons a rest ih =>
      obtain ⟨t,moved,ran⟩ := Option.bind_eq_some_iff.mp ran
      obtain ⟨between,later⟩ := ih t ran
      rw [Machine.trace,moved,Option.elim_some]
      exact ⟨open_before moved between,(follows moved between).trans later⟩
  exact both.2

end

/-- The second context executes the task that the first one submits to it, and stops itself. -/
theorem submit_across_runs_context : ∃ s : State 2 Nat Empty,
    (machine 2 Nat Empty).run (initial 2 Empty 1 fun i => if i = 0 then [5] else []) submitAcross = some s ∧
    (s.ctxs 1).taskQueue = [] ∧
    (Context.machine Nat).run ((initial 2 Empty 1 fun i => if i = 0 then [5] else []).view 1)
      ((machine 2 Nat Empty).trace (seen 1) (initial 2 Empty 1 fun i => if i = 0 then [5] else []) submitAcross) = some (s.view 1) := by
  have ran : ((machine 2 Nat Empty).run (initial 2 Empty 1 fun i => if i = 0 then [5] else []) submitAcross).map
      (fun s => ((s.ctxs 1).taskQueue,s.closed 1)) = some ([],false) := by decide
  obtain ⟨s,reached,shape⟩ := Option.map_eq_some_iff.mp ran
  simp only [Prod.mk.injEq] at shape
  exact ⟨s,reached,shape.1,contexts_run _ _ s 1 reached shape.2⟩

end TinyCoro.Scheduler
