import TinyCoro.Scheduler.NeverHangs

/-! When `stop_impl` is called nothing is left to do, in runs in which a callback
clears the flag of its context only while no task is in its queue or on the way. -/
namespace TinyCoro.Scheduler
open Library TwoParties

/-- Where a worker may be without a task or a completion at hand. -/
def idles {Coro : Type} : Context.Pc Coro → Bool
  | .processWork | .exec 0 | .stopRequested | .emptyWaitWork | .ready | .stopNotRequested | .idleWaitWork | .notReady
  | .stopCb | .doIoSubmit | .waitEventfd | .peekBatchCqe | .returned => true
  | _ => false

/-- After the worker has found no wait and no io. -/
def unburdened {Coro : Type} : Context.Pc Coro → Bool
  | .notReady | .stopCb => true
  | _ => false

structure Quiet {Coro : Type} (c : Context.State Coro) : Prop where
  queue : c.taskQueue = []
  waits : c.numWaitTask = 0
  submits : c.numIoWaitSubmit = 0
  running : c.numIoRunning = 0
  pc : idles c.pc = true

section
variable {Coro : Type} [DecidableEq Coro] {c c' : Context.State Coro}

omit [DecidableEq Coro] in
theorem Quiet.inFlight (quiet : Quiet c) (counters : Context.Counters c) : c.inFlight = 0 := by
  have total := counters.total
  rw [quiet.submits,quiet.running] at total
  omega

theorem Quiet.advance (quiet : Quiet c) (counters : Context.Counters c) (moved : Context.advance c = some c') : Quiet c' := by
  have none := quiet.inFlight counters
  obtain ⟨queue,waits,submits,running,pc⟩ := quiet
  have cq : c.cq = [] := by
    unfold Context.State.inFlight at none
    exact List.eq_nil_of_length_eq_zero (by omega)
  unfold Context.advance at moved
  split at moved
  all_goals next here =>
    simp only [here,idles,Bool.false_eq_true] at pc
    repeat' split at moved
    all_goals cases moved
    all_goals refine ⟨queue,waits,submits,running,?_⟩
    all_goals simp [idles,queue,cq]

theorem Quiet.others (quiet : Quiet c) (counters : Context.Counters c) {a : Context.Action Coro} (work : isWork a = true)
    (moved : Context.step c a = some c') : Quiet c' := by
  have none := quiet.inFlight counters
  obtain ⟨queue,waits,submits,running,pc⟩ := quiet
  cases a with
  | post before after entry res =>
    simp only [Context.step] at moved
    split at moved
    next accepted =>
      simp [Context.State.inFlight,accepted] at none
    next => contradiction
  | accept =>
    simp only [Context.step] at moved
    split at moved
    next => simp [submits] at moved
    next => contradiction
  | submitSelf | io | coAwait | suspend =>
    simp only [Context.step] at moved
    split at moved
    next here => simp [here,idles] at pc
    next => contradiction
  | _ => simp [isWork] at work

/-- A worker comes to its callback only past the check for waits and io, and nothing
adds any before it has left the callback. -/
theorem unburdened_of_work {a : Context.Action Coro} (own : a = .step ∨ isWork a = true) (moved : Context.step c a = some c')
    (before : unburdened c.pc = true → c.numWaitTask = 0 ∧ c.emptyIo = true) (now : unburdened c'.pc = true) :
    c'.numWaitTask = 0 ∧ c'.emptyIo = true := by
  cases a with
  | step =>
    simp only [Context.step,Context.advance] at moved
    split at moved
    all_goals next here =>
      simp only [here,unburdened] at before
      repeat' split at moved
      all_goals cases moved
      all_goals grind [unburdened,Context.State.emptyIo]
  | accept | submitSelf | io | coAwait | suspend | post =>
    simp only [Context.step] at moved
    repeat' split at moved
    all_goals cases moved
    all_goals first | exact before now | simp_all [unburdened]
  | _ => simp [isWork] at own

end

variable {n : Nat} {Coro Ext : Type}

def Submission.pends : Submission n Coro → Option (Fin n)
  | .fetchAdd i _ _ | .push i _ => some i
  | _ => none

private theorem pends_of_raised {p : Submission n Coro} {i : Fin n} (raises : p.raised = some i) : p.pends = some i := by
  unfold Submission.raised at raises
  split at raises
  next => simpa [Submission.pends] using raises
  next => contradiction

/-- A flag of zero stands for a context with nothing to do. -/
structure Clean (s : State n Coro Empty) : Prop where
  quiet : ∀ i, s.ctxStopFlag i = 0 → Quiet (s.ctxs i) ∧ ∀ u, (s.submits u).pends ≠ some i
  checked : ∀ i, unburdened (s.ctxs i).pc = true → (s.ctxs i).numWaitTask = 0 ∧ (s.ctxs i).emptyIo = true
  calling : ∀ i, s.submits (.inl i) ≠ .idle → Context.isRunning (s.ctxs i).pc = true
  raised : ∀ u u' i, (s.submits u).raised = some i → (s.submits u').raised = some i → u = u'
  order : ∃ since : Fin n → Nat, ∀ j i k,
    (s.submits (.inl j)).raised = some i → (s.submits (.inl i)).raised = some k → since j < since i
  ended : s.stops ≠ 0 → ∀ i, s.ctxStopFlag i = 0

/-- A callback clears the flag of its context only while its queue is empty and no
submit to it stands between its fetch_or and its push. -/
def ClearsIdle (s : State n Coro Empty) : Action n Coro Empty → Prop
  | .callback i =>
    s.stopCb i = .fetchAnd → (s.ctxs i).taskQueue = [] ∧ ∀ j, (s.submits (.inl j)).pends ≠ some i
  | _ => True

theorem fresh_clean (s : State n Coro Empty) (fresh : Fresh s) : Clean s := by
  obtain ⟨_,flags,ctxs,_,submits,_,_,_,_,_,stops⟩ := fresh
  refine ⟨by simp [flags],?_,by simp [submits],by simp [submits,Submission.raised],⟨fun _ => 0,by simp [submits,Submission.raised]⟩,
    fun more => absurd stops more⟩
  intro i here
  have pc : (s.ctxs i).pc = .processWork := (ctxs i).pc
  simp [pc,unburdened] at here

section
variable [DecidableEq Coro] {s s' : State n Coro Empty}

omit [DecidableEq Coro] in
theorem Clean.flagged (clean : Clean s) {i : Fin n} (running : Context.isRunning (s.ctxs i).pc = true) : s.ctxStopFlag i ≠ 0 := by
  intro zero
  have pc := (clean.quiet i zero).1.pc
  cases here : (s.ctxs i).pc <;> simp [here,Context.isRunning,idles] at running pc

omit [DecidableEq Coro] in
private theorem mayWork_of_busy {i : Fin n} {a : Context.Action Coro} (may : s.mayWork i a = true) (busy : s.submits (.inl i) ≠ .idle) :
    ∃ before after entry res, a = .post before after entry res := by
  have isIdle : (s.submits (.inl i)).isIdle = false := by
    cases here : s.submits (.inl i) <;> simp_all [Submission.isIdle]
  cases a with
  | post before after entry res => exact ⟨before,after,entry,res,rfl⟩
  | _ => simp [State.mayWork,isIdle] at may

private theorem running_of_work {c c' : Context.State Coro} {a : Context.Action Coro}
    (post : ∃ before after entry res, a = .post before after entry res)
    (moved : Context.step c a = some c') (running : Context.isRunning c.pc = true) : Context.isRunning c'.pc = true := by
  obtain ⟨before,after,entry,res,rfl⟩ := post
  simp only [Context.step] at moved
  split at moved
  next => cases moved; exact running
  next => contradiction

omit [DecidableEq Coro] in
theorem Clean.keep (clean : Clean s) (flags : s'.ctxStopFlag = s.ctxStopFlag) (stops : s'.stops = s.stops)
    (quiet : ∀ i, s.ctxStopFlag i = 0 → Quiet (s.ctxs i) → Quiet (s'.ctxs i))
    (checked : ∀ i, unburdened (s'.ctxs i).pc = true → (s'.ctxs i).numWaitTask = 0 ∧ (s'.ctxs i).emptyIo = true)
    (calling : ∀ i, s'.submits (.inl i) ≠ .idle → Context.isRunning (s'.ctxs i).pc = true)
    (pends : ∀ u i, (s'.submits u).pends = some i → (s.submits u).pends = some i ∨ s.ctxStopFlag i ≠ 0)
    (raises : ∀ u i, (s'.submits u).raised = some i → (s.submits u).raised = some i) : Clean s' := by
  refine ⟨?_,checked,calling,?_,?_,?_⟩
  · intro i zero
    rw [flags] at zero
    obtain ⟨before,none⟩ := clean.quiet i zero
    refine ⟨quiet i zero before,fun u here => ?_⟩
    exact (pends u i here).elim (none u) fun flagged => flagged zero
  · exact fun u u' i here here' => clean.raised u u' i (raises u i here) (raises u' i here')
  · obtain ⟨since,order⟩ := clean.order
    exact ⟨since,fun j i k here here' => order j i k (raises _ _ here) (raises _ _ here')⟩
  · rw [stops,flags]
    exact clean.ended

omit [DecidableEq Coro] in
theorem Clean.submitting (clean : Clean s) {u : Submitter n Empty} {p : Submission n Coro}
    (submits : s'.submits = Function.update s.submits u p) (flags : s'.ctxStopFlag = s.ctxStopFlag) (stops : s'.stops = s.stops)
    (quiet : ∀ i, s.ctxStopFlag i = 0 → Quiet (s.ctxs i) → Quiet (s'.ctxs i)) (pc : ∀ i, (s'.ctxs i).pc = (s.ctxs i).pc)
    (waits : ∀ i, (s'.ctxs i).numWaitTask = (s.ctxs i).numWaitTask) (io : ∀ i, (s'.ctxs i).emptyIo = (s.ctxs i).emptyIo)
    (running : ∀ j, u = .inl j → Context.isRunning (s.ctxs j).pc = true)
    (pends : ∀ i, p.pends = some i → (s.submits u).pends = some i ∨ s.ctxStopFlag i ≠ 0) (raises : p.raised = none) : Clean s' := by
  refine clean.keep flags stops quiet ?_ ?_ ?_ ?_
  · intro i here
    rw [pc i] at here
    rw [waits i,io i]
    exact clean.checked i here
  · intro i here
    rw [submits] at here
    rw [pc i]
    by_cases same : .inl i = u
    · exact running i same.symm
    · rw [Function.update_of_ne same] at here
      exact clean.calling i here
  · intro v i here
    rw [submits] at here
    by_cases same : v = u
    · subst same
      rw [Function.update_self] at here
      exact pends i here
    · rw [Function.update_of_ne same] at here
      exact .inl here
  · intro v i here
    rw [submits] at here
    by_cases same : v = u
    · subst same
      rw [Function.update_self,raises] at here
      contradiction
    · rwa [Function.update_of_ne same] at here

omit [DecidableEq Coro] in
private theorem isRunning_of_mayCall {j : Fin n} (may : s.mayCall (.inl j) = true) : Context.isRunning (s.ctxs j).pc = true := by
  obtain ⟨left,handle,pc⟩ := running_of_mayCall may
  rw [pc]
  rfl

omit [DecidableEq Coro] in
theorem Clean.fetchOr (clean : Clean s) (bits : Bits s) {u : Submitter n Empty} {x : Fin n} {handle : Coro}
    (here : s.submits u = .fetchOr x handle) :
    Clean { s.submitting u (.fetchAdd x (s.ctxStopFlag x) handle) with
      ctxStopFlag := Function.update s.ctxStopFlag x (s.ctxStopFlag x ||| 1) } := by
  obtain ⟨j,rfl⟩ : ∃ j, u = .inl j := by
    cases u with
    | inl j => exact ⟨j,rfl⟩
    | inr e => exact e.elim
  have running : Context.isRunning (s.ctxs j).pc = true := clean.calling j (by simp [here])
  have flagged := clean.flagged running
  have others : ∀ v, v ≠ .inl j → (Function.update s.submits (.inl j) (.fetchAdd x (s.ctxStopFlag x) handle) v) = s.submits v :=
    fun v other => Function.update_of_ne other ..
  have mine : ∀ i, (Submission.fetchAdd x (s.ctxStopFlag x) handle).raised = some i → i = x ∧ s.ctxStopFlag x = 0 := by
    intro i raises
    cases old : s.ctxStopFlag x with
    | zero =>
      simp only [old,Submission.raised,Option.some.injEq] at raises
      exact ⟨raises.symm,rfl⟩
    | succ old' => simp [old,Submission.raised] at raises
  have fresh : s.ctxStopFlag x = 0 → ∀ v, (s.submits v).raised ≠ some x :=
    fun zero v raises => (clean.quiet x zero).2 v (pends_of_raised raises)
  refine ⟨?_,clean.checked,?_,?_,?_,fun more => absurd (clean.ended more j) flagged⟩
  · intro i zero
    have other : i ≠ x := by
      rintro rfl
      simp [or_one (bits.flags i)] at zero
    simp only [Function.update_of_ne other] at zero
    refine ⟨(clean.quiet i zero).1,fun v pends => ?_⟩
    by_cases same : v = .inl j
    · subst same
      simp only [State.submitting,Function.update_self,Submission.pends,Option.some.injEq] at pends
      exact other pends.symm
    · simp only [State.submitting,others v same] at pends
      exact (clean.quiet i zero).2 v pends
  · intro i busy
    by_cases same : i = j
    · rw [same]
      exact running
    · simp only [State.submitting,others (.inl i) (by simpa using same)] at busy
      exact clean.calling i busy
  · intro v v' i raises raises'
    simp only [State.submitting] at raises raises'
    by_cases same : v = .inl j
    · by_cases same' : v' = .inl j
      · rw [same,same']
      · subst same
        rw [Function.update_self] at raises
        rw [others v' same'] at raises'
        obtain ⟨rfl,zero⟩ := mine i raises
        exact absurd raises' (fresh zero v')
    · rw [others v same] at raises
      by_cases same' : v' = .inl j
      · subst same'
        rw [Function.update_self] at raises'
        obtain ⟨rfl,zero⟩ := mine i raises'
        exact absurd raises (fresh zero v)
      · rw [others v' same'] at raises'
        exact clean.raised v v' i raises raises'
  · obtain ⟨since,order⟩ := clean.order
    -- the submit that counts last is the youngest
    refine ⟨Function.update since j (Finset.univ.sup since + 1),?_⟩
    have below : ∀ i, since i < Finset.univ.sup since + 1 := fun i => Nat.lt_succ_of_le (Finset.le_sup (Finset.mem_univ i))
    intro i k l raises raises'
    simp only [State.submitting] at raises raises'
    by_cases same : i = j
    · subst same
      rw [Function.update_self] at raises
      obtain ⟨rfl,zero⟩ := mine k raises
      have silent : k ≠ i := fun same => flagged (same ▸ zero)
      rw [others (.inl k) (by simpa using silent)] at raises'
      have running' := clean.calling k (fun idle => by simp [idle,Submission.raised] at raises')
      exact absurd zero (clean.flagged running')
    · rw [others (.inl i) (by simpa using same)] at raises
      rw [Function.update_of_ne same]
      by_cases same' : k = j
      · subst same'
        rw [Function.update_self]
        exact below i
      · rw [others (.inl k) (by simpa using same')] at raises'
        rw [Function.update_of_ne same']
        exact order i k l raises raises'

theorem Clean.work (clean : Clean s) (awake : Awake s) {i : Fin n} {a : Context.Action Coro} {c : Context.State Coro}
    (may : s.mayWork i a = true) (moved : Context.step (s.ctxs i) a = some c) : Clean (s.context i c) := by
  have own := (mayWork_cases may).imp_left And.left
  refine clean.keep rfl rfl ?_ ?_ ?_ (fun _ _ => .inl) fun _ _ => id
  · intro j zero quiet
    by_cases same : j = i
    · subst same
      simp only [State.context,Function.update_self]
      have counters := (awake.watched j).counters
      rcases own with rfl | work
      · exact quiet.advance counters moved
      · exact quiet.others counters work moved
    · simpa only [State.context,Function.update_of_ne same] using quiet
  · intro j here
    by_cases same : j = i
    · subst same
      simp only [State.context,Function.update_self] at here ⊢
      exact unburdened_of_work own moved (clean.checked j) here
    · simp only [State.context,Function.update_of_ne same] at here ⊢
      exact clean.checked j here
  · intro j busy
    have running := clean.calling j busy
    by_cases same : j = i
    · subst same
      simp only [State.context,Function.update_self]
      exact running_of_work (mayWork_of_busy may busy) moved running
    · simpa only [State.context,Function.update_of_ne same] using running

omit [DecidableEq Coro] in
theorem Clean.calls (clean : Clean s) (submits : s'.submits = s.submits) (flags : s'.ctxStopFlag = s.ctxStopFlag)
    (stops : s'.stops = s.stops)
    (same : ∀ j, (s'.ctxs j).taskQueue = (s.ctxs j).taskQueue ∧ (s'.ctxs j).numWaitTask = (s.ctxs j).numWaitTask ∧
      (s'.ctxs j).numIoWaitSubmit = (s.ctxs j).numIoWaitSubmit ∧ (s'.ctxs j).numIoRunning = (s.ctxs j).numIoRunning)
    (pc : ∀ j, (s'.ctxs j).pc = (s.ctxs j).pc ∨ (s.ctxs j).pc = .stopCb ∧ (s'.ctxs j).pc = .doIoSubmit) : Clean s' := by
  refine clean.keep flags stops ?_ ?_ ?_ (fun u i here => .inl (submits ▸ here)) fun u i here => submits ▸ here
  · intro j _ quiet
    obtain ⟨queue,waits,wait,running⟩ := same j
    refine ⟨queue.trans quiet.queue,waits.trans quiet.waits,wait.trans quiet.submits,running.trans quiet.running,?_⟩
    rcases pc j with keeps | ⟨_,ends⟩
    · rw [keeps]
      exact quiet.pc
    · rw [ends]
      rfl
  · intro j here
    obtain ⟨_,waits,wait,running⟩ := same j
    rcases pc j with keeps | ⟨_,ends⟩
    · rw [keeps] at here
      simpa only [waits,Context.State.emptyIo,wait,running] using clean.checked j here
    · simp [ends,unburdened] at here
  · intro j busy
    rw [submits] at busy
    have calling := clean.calling j busy
    rcases pc j with keeps | ⟨within,_⟩
    · rwa [keeps]
    · rw [within] at calling
      contradiction

omit [DecidableEq Coro] in
private theorem adds_eq (bits : Bits s) (u : Submitter n Empty) :
    (s.submits u).adds = if (s.submits u).raised.isSome then 1 else 0 := by
  cases here : s.submits u with
  | fetchAdd x old handle =>
    rcases Nat.le_one_iff_eq_zero_or_eq_one.mp (bits.olds u x old handle here) with rfl | rfl <;> rfl
  | _ => rfl

omit [DecidableEq Coro] in
/-- Every flagged context is about to be counted, by a coroutine whose own context is flagged. -/
theorem Clean.counted (clean : Clean s) (bits : Bits s) (balanced : Balanced s) {i : Fin n} {cnt : Nat}
    (here : s.stopCb i = .fetchSub cnt) (last : s.stopToken = cnt) {x : Fin n} (flagged : s.ctxStopFlag x ≠ 0) :
    ∃ j, (s.submits (.inl j)).raised = some x := by
  have mine : (cnt : Int) ≤ ∑ w, (s.stopCb w).subtracts := by
    have nonneg : ∀ w ∈ Finset.univ, 0 ≤ (s.stopCb w).subtracts := by
      intro w _
      cases s.stopCb w <;> simp [StopCb.subtracts]
    have := Finset.single_le_sum nonneg (Finset.mem_univ i)
    rwa [here] at this
  have enough : ∑ k, (s.ctxStopFlag k : Int) ≤ ∑ u, (if (s.submits u).raised.isSome then 1 else 0 : Int) := by
    unfold Balanced at balanced
    simp only [adds_eq bits] at balanced
    omega
  have covers : ∀ u k, (s.submits u).raised = some k → 1 ≤ (s.ctxStopFlag k : Int) := by
    intro u k raises
    by_contra less
    have zero : s.ctxStopFlag k = 0 := by omega
    exact (clean.quiet k zero).2 u (pends_of_raised raises)
  obtain ⟨u,raises⟩ := pointed_of_sum_le clean.raised covers (fun k => Int.natCast_nonneg _) enough
    (Int.natCast_pos.mpr (Nat.pos_of_ne_zero flagged))
  cases u with
  | inl j => exact ⟨j,raises⟩
  | inr e => exact e.elim

omit [DecidableEq Coro] in
/-- The last callback finds every flag cleared: the coroutines that are about to count
would form a chain that goes back without end. -/
theorem Clean.drained (clean : Clean s) (bits : Bits s) (balanced : Balanced s) {i : Fin n} {cnt : Nat}
    (here : s.stopCb i = .fetchSub cnt) (last : s.stopToken = cnt) (x : Fin n) : s.ctxStopFlag x = 0 := by
  obtain ⟨since,order⟩ := clean.order
  have counted := fun x flagged => clean.counted bits balanced (x := x) here last flagged
  have none : ∀ m j k, since j = m → (s.submits (.inl j)).raised ≠ some k := by
    intro m
    induction m using Nat.strong_induction_on with
    | h m ih =>
      intro j k age raises
      have running := clean.calling j fun idle => by simp [idle,Submission.raised] at raises
      obtain ⟨older,raises'⟩ := counted j (clean.flagged running)
      exact ih (since older) (age ▸ order older j k raises' raises) older j rfl raises'
  by_contra flagged
  obtain ⟨j,raises⟩ := counted x flagged
  exact none (since j) j x rfl raises

omit [DecidableEq Coro] in
private theorem quiet_update {i : Fin n} {c : Context.State Coro} (mine : s.ctxStopFlag i = 0 → Quiet (s.ctxs i) → Quiet c) (j : Fin n)
    (zero : s.ctxStopFlag j = 0) (quiet : Quiet (s.ctxs j)) : Quiet (Function.update s.ctxs i c j) := by
  by_cases same : j = i
  · subst same
    rw [Function.update_self]
    exact mine zero quiet
  · rwa [Function.update_of_ne same]

omit [DecidableEq Coro] in
theorem Clean.notified (clean : Clean s) {i k : Fin n} (within : (s.ctxs i).pc = .stopCb) : Clean (s.notified i k) := by
  rcases notified_ctxs s i k with ⟨same,_⟩ | ⟨_,ends⟩
  · refine clean.calls (by simp) (by simp) (by simp) ?_ fun j => .inl (by rw [same])
    rw [same]
    exact fun j => ⟨rfl,rfl,rfl,rfl⟩
  · refine clean.calls (by simp) (by simp) (by simp) ?_ ?_
    · rw [ends]
      exact fun j => ⟨update_keeps Context.State.taskQueue (by rfl) j,update_keeps Context.State.numWaitTask (by rfl) j,
        update_keeps Context.State.numIoWaitSubmit (by rfl) j,update_keeps Context.State.numIoRunning (by rfl) j⟩
    · intro j
      rw [ends]
      by_cases same : j = i
      · subst same
        exact .inr ⟨within,by rw [Function.update_self]⟩
      · exact .inl (by rw [Function.update_of_ne same])

theorem Clean.effect {a : Action n Coro Empty} (clean : Clean s) (bits : Bits s) (awake : Awake s) (balanced : Balanced s)
    (idle : ClearsIdle s a) (effect : Effect s a s') : Clean s' := by
  have calling : ∀ {u : Submitter n Empty} {p : Submission n Coro}, s.submits u = p → p ≠ .idle →
      ∀ j, u = .inl j → Context.isRunning (s.ctxs j).pc = true := by
    rintro u p here busy j rfl
    exact clean.calling j (here ▸ busy)
  cases effect with
  | crash | spawn | assign => exact { clean with }
  | work i a c spawned open' may moved => exact clean.work awake may moved
  | wait i registerCnt may enough =>
    have running := isRunning_of_mayCall may
    have flagged := clean.flagged running
    refine clean.keep rfl rfl (quiet_update fun zero => absurd zero flagged) ?_ ?_ (fun _ _ => .inl) fun _ _ => id
    · intro j here
      by_cases same : j = i
      · subst same
        simp only [State.context,Function.update_self] at here
        cases pc : (s.ctxs j).pc <;> simp [pc,Context.isRunning,unburdened] at running here
      · simp only [State.context,Function.update_of_ne same] at here ⊢
        exact clean.checked j here
    · intro j busy
      have pc : ((s.context i { s.ctxs i with numWaitTask := (s.ctxs i).numWaitTask + registerCnt }).ctxs j).pc = (s.ctxs j).pc :=
        update_keeps Context.State.pc (by rfl) j
      rw [pc]
      exact clean.calling j busy
  | submit u handle may =>
    refine clean.submitting rfl rfl rfl (fun _ _ => id) (fun _ => rfl) (fun _ => rfl) (fun _ => rfl) ?_
      (by simp [Submission.pends]) rfl
    rintro j rfl
    exact isRunning_of_mayCall may
  | resume u i handle may registered =>
    refine clean.submitting rfl rfl rfl (quiet_update ?_) (update_keeps Context.State.pc rfl)
      (update_keeps Context.State.numWaitTask rfl) (update_keeps Context.State.emptyIo rfl) ?_ (by simp [Submission.pends]) rfl
    · intro _ quiet
      rw [quiet.waits] at registered
      contradiction
    · rintro j rfl
      exact isRunning_of_mayCall may
  | load u handle here | dispatch u handle ctxId here | dropped u ctxId here =>
    exact clean.submitting rfl rfl rfl (fun _ _ => id) (fun _ => rfl) (fun _ => rfl) (fun _ => rfl)
      (calling here (by simp)) (by simp [Submission.pends]) rfl
  | fetchOr u ctxId handle here => exact clean.fetchOr bits here
  | fetchAdd u ctxId old handle here =>
    exact clean.submitting rfl rfl rfl (fun _ _ => id) (fun _ => rfl) (fun _ => rfl) (fun _ => rfl)
      (calling here (by simp)) (fun i pends => .inl (by rw [here]; exact pends)) rfl
  | push u ctxId handle here =>
    refine clean.submitting rfl rfl rfl (quiet_update ?_) (update_keeps Context.State.pc rfl)
      (update_keeps Context.State.numWaitTask rfl) (update_keeps Context.State.emptyIo rfl)
      (calling here (by simp)) (by simp [Submission.pends]) rfl
    intro zero _
    exact absurd (by rw [here]; rfl) ((clean.quiet ctxId zero).2 u)
  | written u ctxId here open' =>
    exact clean.submitting rfl rfl rfl (quiet_update fun _ quiet => { quiet with }) (update_keeps Context.State.pc rfl)
      (update_keeps Context.State.numWaitTask rfl) (update_keeps Context.State.emptyIo rfl)
      (calling here (by simp)) (by simp [Submission.pends]) rfl
  | fetchAnd i within here =>
    obtain ⟨queue,none⟩ := idle here
    refine { clean with quiet := ?_,ended := ?_ }
    · intro j zero
      by_cases same : j = i
      · subst same
        obtain ⟨waits,io⟩ := clean.checked j (by rw [within]; rfl)
        simp only [Context.State.emptyIo,decide_eq_true_eq] at io
        refine ⟨⟨queue,waits,io.1,io.2,by rw [within]; rfl⟩,?_⟩
        rintro (k | e)
        · exact none k
        · exact e.elim
      · simp only [Function.update_of_ne same] at zero
        exact clean.quiet j zero
    · intro more j
      by_cases same : j = i
      · subst same
        simp only [Function.update_self]
      · simp only [Function.update_of_ne same]
        exact clean.ended more j
  | stops i cnt within here last =>
    have drained := clean.drained bits balanced here last
    exact { clean with ended := fun _ => drained }
  | subtracts i cnt within here more =>
    refine clean.calls rfl rfl rfl ?_ ?_
    · exact fun j => ⟨update_keeps Context.State.taskQueue (by rfl) j,update_keeps Context.State.numWaitTask (by rfl) j,
        update_keeps Context.State.numIoWaitSubmit (by rfl) j,update_keeps Context.State.numIoRunning (by rfl) j⟩
    · intro j
      by_cases same : j = i
      · subst same
        exact .inr ⟨within,by simp [State.endCallback,State.context]⟩
      · simp [State.endCallback,State.context,Function.update_of_ne same]
  | requestStop i k within here assigned =>
    refine clean.calls rfl rfl rfl ?_ fun j => .inl (update_keeps Context.State.pc (by rfl) j)
    exact fun j => ⟨update_keeps Context.State.taskQueue (by rfl) j,update_keeps Context.State.numWaitTask (by rfl) j,
      update_keeps Context.State.numIoWaitSubmit (by rfl) j,update_keeps Context.State.numIoRunning (by rfl) j⟩
  | notified i k within here open' =>
    have written : Clean (s.context k ((s.ctxs k).writeEventfd 1)) := by
      refine clean.calls rfl rfl rfl ?_ fun j => .inl (update_keeps Context.State.pc (by rfl) j)
      exact fun j => ⟨update_keeps Context.State.taskQueue (by rfl) j,update_keeps Context.State.numWaitTask (by rfl) j,
        update_keeps Context.State.numIoWaitSubmit (by rfl) j,update_keeps Context.State.numIoRunning (by rfl) j⟩
    exact written.notified ((update_keeps Context.State.pc (by rfl) i).trans within)
  | unnotified i k within here closed => exact clean.notified within
  | deinit i left open' =>
    have pcs : ∀ j, (Function.update s.ctxs i { s.ctxs i with taskQueue := [] } j).pc = (s.ctxs j).pc :=
      update_keeps Context.State.pc rfl
    refine clean.keep rfl rfl (quiet_update fun _ quiet => { quiet with queue := rfl }) ?_ ?_ (fun _ _ => .inl) fun _ _ => id
    · intro j here
      have before := clean.checked j (pcs j ▸ here)
      exact ⟨(update_keeps Context.State.numWaitTask (by rfl) j).trans before.1,
        (update_keeps Context.State.emptyIo (by rfl) j).trans before.2⟩
    · exact fun j busy => (congrArg Context.isRunning (pcs j)).trans (clean.calling j busy)

end

def executes : Context.Pc Coro → Bool
  | .running _ _ | .wakeSelf _ _ => true
  | _ => false

structure Done (s : State n Coro Empty) : Prop where
  queues : ∀ i, (s.ctxs i).taskQueue = []
  executed : ∀ i, executes (s.ctxs i).pc = false
  io : ∀ i, (s.ctxs i).inFlight = 0
  waits : ∀ i, (s.ctxs i).numWaitTask = 0
  submits : ∀ u, s.submits u = .idle

/-- The callback that calls `stop_impl` finds everything done; a context that has left
`run` has an empty queue and no submit on its way; and a handle leaves a queue only
when the worker pops it to run it. -/
structure DetectsSoundly [DecidableEq Coro] (s : State n Coro Empty) : Prop where
  stops : ∀ i cnt, (s.ctxs i).pc = .stopCb → s.stopCb i = .fetchSub cnt → s.stopToken = cnt → Done s
  left : ∀ i, (s.ctxs i).pc = .returned → (s.ctxs i).taskQueue = [] ∧ ∀ u, s.submits u = .idle
  pops : ∀ a s' i, step s a = some s' → (∃ more, (s'.ctxs i).taskQueue = (s.ctxs i).taskQueue ++ more) ∨
    ∃ left handle, a = .work i .step ∧ (s.ctxs i).taskQueue = handle :: (s'.ctxs i).taskQueue ∧
      (s'.ctxs i).pc = .running left handle

theorem Clean.done {s : State n Coro Empty} (clean : Clean s) (awake : Awake s) (drained : ∀ i, s.ctxStopFlag i = 0) : Done s := by
  have quiet := fun i => (clean.quiet i (drained i)).1
  have executed : ∀ i, executes (s.ctxs i).pc = false := by
    intro i
    have idle := (quiet i).pc
    cases pc : (s.ctxs i).pc <;> simp_all [executes,idles]
  refine ⟨fun i => (quiet i).queue,executed,fun i => (quiet i).inFlight (awake.watched i).counters,fun i => (quiet i).waits,?_⟩
  rintro (j | e)
  · by_contra busy
    have running := clean.calling j busy
    cases pc : (s.ctxs j).pc <;> simp [pc,Context.isRunning] at running
    have := executed j
    simp [pc,executes] at this
  · exact e.elim

private theorem pops_of_work [DecidableEq Coro] {c c' : Context.State Coro} {a : Context.Action Coro} (own : a = .step ∨ isWork a = true)
    (moved : Context.step c a = some c') : (∃ more, c'.taskQueue = c.taskQueue ++ more) ∨
    ∃ left handle, a = .step ∧ c.taskQueue = handle :: c'.taskQueue ∧ c'.pc = .running left handle := by
  cases a with
  | step =>
    simp only [Context.step,Context.advance] at moved
    split at moved
    case h_3 left pc =>
      split at moved
      next => contradiction
      next handle rest front => cases moved; exact .inr ⟨left,handle,rfl,front,rfl⟩
    all_goals repeat' split at moved
    all_goals cases moved
    all_goals first | exact .inl ⟨[],(List.append_nil _).symm⟩ | exact .inl ⟨_,rfl⟩
  | accept | submitSelf | io | coAwait | suspend | post =>
    simp only [Context.step] at moved
    repeat' split at moved
    all_goals cases moved
    all_goals first | exact .inl ⟨[],(List.append_nil _).symm⟩ | exact .inl ⟨_,rfl⟩
  | _ => simp [isWork] at own

/-- The scheduler stops only when everything is done, in every run whose callbacks are not
overtaken by a submit. -/
theorem clears_idle_detects [DecidableEq Coro] (s : State n Coro Empty) (within : (machine n Coro Empty).Within ClearsIdle s) :
    DetectsSoundly s := by
  have all : (Bits s ∧ Awake s) ∧ Stopping s ∧ Balanced s ∧ Clean s :=
    Machine.Within.invariant
      (fun s fresh => And.intro (And.intro (fresh_bits s fresh) (fresh_awake s fresh))
        (And.intro (fresh_stopping s fresh) (And.intro (fresh_balanced s fresh) (fresh_clean s fresh))))
      (fun _ _ _ before idle moved =>
        have effect := (effect_step moved).2
        And.intro (And.intro (before.1.1.effect effect) (before.1.2.effect effect))
          (And.intro (before.2.1.effect before.1.1 effect)
            (And.intro (before.2.2.1.effect before.1.1 effect)
              (before.2.2.2.effect before.1.1 before.1.2 before.2.2.1 idle effect))))
      within
  obtain ⟨⟨bits,awake⟩,stopping,balanced,clean⟩ := all
  have left : ∀ i, (s.ctxs i).pc = .returned → Done s := by
    intro i gone
    have stop := (awake.watched i).seen (by rw [gone]; rfl)
    exact clean.done awake (clean.ended (stopping.stopped i stop))
  refine ⟨?_,?_,?_⟩
  · intro i cnt _ here last
    exact clean.done awake (clean.drained bits balanced here last)
  · exact fun i gone => ⟨(left i gone).queues i,(left i gone).submits⟩
  · intro a s' i moved
    have keeps : ∀ j c, c.taskQueue = (s.ctxs j).taskQueue →
        ∃ more, (Function.update s.ctxs j c i).taskQueue = (s.ctxs i).taskQueue ++ more :=
      fun j c same => ⟨[],by rw [List.append_nil]; exact update_keeps Context.State.taskQueue same i⟩
    cases (effect_step moved).2 with
    | work k a c spawned open' may worked =>
      by_cases same : i = k
      · subst same
        simp only [State.context,Function.update_self]
        rcases pops_of_work ((mayWork_cases may).imp_left And.left) worked with grows | ⟨left,handle,rfl,front,pc⟩
        · exact .inl grows
        · exact .inr ⟨left,handle,rfl,front,pc⟩
      · exact .inl ⟨[],by simp [State.context,Function.update_of_ne same]⟩
    | deinit k gone open' => exact .inl (keeps k _ ((left k gone).queues k).symm)
    | resume u k handle | push u k handle =>
      by_cases same : i = k
      · subst same
        exact .inl ⟨[handle],by simp [State.context]⟩
      · exact .inl ⟨[],by simp [State.context,State.submitting,Function.update_of_ne same]⟩
    | wait k | written _ k | requestStop _ k => exact .inl (keeps k _ rfl)
    | subtracts k => exact .inl (keeps k _ rfl)
    | notified w k =>
      rw [notified_keeps _ w k Context.State.taskQueue fun _ => rfl]
      exact .inl (keeps k _ rfl)
    | unnotified w k =>
      rw [notified_keeps _ w k Context.State.taskQueue fun _ => rfl]
      exact .inl ⟨[],(List.append_nil _).symm⟩
    | _ => exact .inl ⟨[],(List.append_nil _).symm⟩

instance (s : State n Coro Empty) (a : Action n Coro Empty) : Decidable (ClearsIdle s a) :=
  match a with
  | .callback _ => inferInstanceAs (Decidable (_ → _ ∧ _))
  | .start | .work _ _ | .wait _ _ | .submit _ _ | .resume _ _ _ | .proceed _ | .deinit _ => isTrue trivial

theorem submit_across_detects : ∃ s : State 2 Nat Empty,
    (machine 2 Nat Empty).guardedRun ClearsIdle (initial 2 Empty 1 fun i => if i = 0 then [5] else []) submitAcross.dropLast = some s ∧
    s.stopCb 1 = .fetchSub 1 ∧ s.stopToken = 1 ∧ DetectsSoundly s := by
  have ran : ((machine 2 Nat Empty).guardedRun ClearsIdle (initial 2 Empty 1 fun i => if i = 0 then [5] else [])
      submitAcross.dropLast).map (fun s => (s.stopCb 1,s.stopToken)) = some (.fetchSub 1,1) := by decide
  obtain ⟨s,reached,shape⟩ := Option.map_eq_some_iff.mp ran
  simp only [Prod.mk.injEq] at shape
  have within := Machine.guardedRun_within _ _ _ _ (.start (initial_fresh _ _)) reached
  exact ⟨s,reached,shape.1,shape.2,clears_idle_detects s within⟩

/-- A submit to the second context finds its flag set and leaves the token as it is;
before the push the second context goes idle and clears the flag. -/
def overtaken : List (Action 2 Nat Empty) :=
  List.replicate 4 Action.start ++ List.replicate 2 (Action.work 0 .step) ++ [Action.submit (.inl 0) 7] ++
    List.replicate 4 (Action.proceed (.inl 0)) ++ List.replicate 6 (Action.work 1 .step) ++ List.replicate 2 (Action.callback 1) ++
    List.replicate 2 (Action.proceed (.inl 0)) ++ [Action.work 0 .suspend] ++ List.replicate 5 (Action.work 0 .step) ++ [Action.callback 0]

/-- The first context then finds the token at one, while the task is in the queue of the second. -/
theorem overtaken_submit_undetected : ¬ ∀ s : State 2 Nat Empty, (machine 2 Nat Empty).Reachable s → DetectsSoundly s := by
  intro claimed
  have ran : ((machine 2 Nat Empty).run (initial 2 Empty 1 fun i => if i = 0 then [5] else []) overtaken).map
      (fun s => (atStopCb (s.ctxs 0).pc,s.stopCb 0,s.stopToken,(s.ctxs 1).taskQueue)) = some (true,.fetchSub 1,1,[7]) := by decide
  obtain ⟨s,reached,shape⟩ := Option.map_eq_some_iff.mp ran
  simp only [Prod.mk.injEq] at shape
  obtain ⟨within,here,token,queue⟩ := shape
  have reachable := Machine.run_reachable _ _ _ _ (.start (initial_fresh _ _)) reached
  have done := (claimed s reachable).stops 0 1 (atStopCb_iff.mp within) here token
  rw [done.queues 1] at queue
  contradiction

end TinyCoro.Scheduler
