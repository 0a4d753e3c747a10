import TinyCoro.Scheduler.Watched

/-! The scheduler does not hang once everything is done: the last context that goes
idle finds the token at its own count and calls `stop_impl`, and every worker sees
its stop or a wake-up. -/
namespace TinyCoro.Scheduler
open Library TwoParties

variable {n : Nat} {Coro Ext : Type} [DecidableEq Coro] [DecidableEq Ext]

/-- The context that a submit has flagged, or pushed to, without having woken it. -/
def Submission.targets : Submission n Coro → Option (Fin n)
  | .fetchAdd i _ _ | .push i _ | .wakeUp i => some i
  | _ => none

def State.owed (s : State n Coro Ext) (i : Fin n) : Prop := ∃ u, (s.submits u).targets = some i

def State.notifying (s : State n Coro Ext) (i : Fin n) : Prop := ∃ w, s.stopCb w = .wakeUp i

/-- Every context is watched, with what its flag, its callback and the other threads are up to. -/
structure Awake (s : State n Coro Ext) : Prop where
  watched : ∀ i, Watched (s.ctxs i) (s.ctxStopFlag i ≠ 0) (s.stopCb i ≠ .fetchAnd) (s.owed i) (s.notifying i)
  within : ∀ i, s.stopCb i ≠ .fetchAnd → (s.ctxs i).pc = .stopCb
  closed : ∀ i, s.closed i = true → (s.ctxs i).pc = .returned

/-- How far `stop_impl` has come. -/
structure Stopping (s : State n Coro Ext) : Prop where
  positive : s.stops = 0 → ∀ _ : Fin n, 1 ≤ s.stopToken
  stopped : ∀ i, (s.ctxs i).stop = true → s.stops ≠ 0
  notifies : ∀ w k, (s.stopCb w).notifies = some k → s.stops ≠ 0
  requested : s.stops ≠ 0 → (∀ k, (s.ctxs k).stop = true) ∨ ∃ w k, (s.stopCb w).notifies = some k
  before : ∀ w k, (s.stopCb w).notifies = some k → ∀ j < k, (s.ctxs j).stop = true
  current : ∀ w k, s.stopCb w = .wakeUp k → (s.ctxs k).stop = true

omit [DecidableEq Coro] [DecidableEq Ext] in
theorem fresh_awake (s : State n Coro Ext) (fresh : Fresh s) : Awake s := by
  obtain ⟨_,_,ctxs,stopCb,_,_,_,_,closed,_⟩ := fresh
  refine ⟨?_,by simp [stopCb],by simp [closed]⟩
  intro i
  have counters := Context.fresh_counters _ (ctxs i)
  have stop := (ctxs i).stop
  have waits := (ctxs i).numWaitTask
  have pc := (ctxs i).pc
  simp only at stop waits pc
  exact ⟨{ counters with },by omega,by simp [pc,seesStop],by simp [stop],by simp [pc,polls,stopCb]⟩

omit [DecidableEq Coro] [DecidableEq Ext] in
theorem fresh_stopping (s : State n Coro Ext) (fresh : Fresh s) : Stopping s := by
  obtain ⟨token,_,ctxs,stopCb,_,_,_,_,_,_,stops⟩ := fresh
  have stop : ∀ i, (s.ctxs i).stop = false := fun i => (ctxs i).stop
  refine ⟨?_,by simp [stop],by simp [stopCb,StopCb.notifies],by simp [stops],by simp [stopCb,StopCb.notifies],by simp [stopCb]⟩
  intro _ i
  have := i.pos
  omega

theorem stop_of_work {c c' : Context.State Coro} {a : Context.Action Coro} (own : a = .step ∨ isWork a = true)
    (moved : Context.step c a = some c') : c'.stop = c.stop := by
  cases a with
  | step =>
    simp only [Context.step,Context.advance] at moved
    split at moved
    all_goals repeat' split at moved
    all_goals cases moved
    all_goals first | rfl | (unfold Context.State.resume; split <;> rfl)
  | accept | submitSelf | io | coAwait | suspend | post =>
    simp only [Context.step] at moved
    repeat' split at moved
    all_goals cases moved
    all_goals rfl
  | _ => simp [isWork] at own

private theorem stopCb_of_work {c c' : Context.State Coro} {a : Context.Action Coro} (work : isWork a = true)
    (moved : Context.step c a = some c') (pc : c.pc = .stopCb) : c'.pc = .stopCb := by
  cases a with
  | accept | submitSelf | io | coAwait | suspend | post =>
    simp only [Context.step,pc] at moved
    repeat' split at moved
    all_goals cases moved
    all_goals exact pc
  | _ => simp [isWork] at work

omit [DecidableEq Coro] in
theorem Watched.waits {c : Context.State Coro} {flagged past pending notifying : Prop}
    (watched : Watched c flagged past pending notifying) {left : Nat} {handle : Coro} (running : c.pc = .running left handle)
    {waits : Int} (nonneg : 0 ≤ waits) (now : ¬ past) : Watched { c with numWaitTask := waits } flagged past pending notifying := by
  refine ⟨{ watched.counters with },nonneg,watched.seen,?_,?_⟩
  · intro _ going
    simp [running,goesOn] at going
  · intro _ polling
    exact absurd (polling.resolve_left (by simp [running,polls])) now

omit [DecidableEq Coro] in
theorem Watched.cleared {c : Context.State Coro} {flagged past pending notifying : Prop}
    (watched : Watched c flagged past pending notifying) (gone : c.pc = .returned) (now : ¬ past) :
    Watched { c with taskQueue := [] } flagged past pending notifying := by
  refine ⟨{ watched.counters with },watched.nonneg,watched.seen,?_,?_⟩
  · intro _ going
    simp [gone,goesOn] at going
  · intro _ polling
    exact absurd (polling.resolve_left (by simp [gone,polls])) now

theorem next_some {i k : Fin n} (more : next i = some k) : k.val = i + 1 := by
  unfold next at more
  split at more
  next => cases more; rfl
  next => contradiction

theorem next_none {i : Fin n} (last : next i = none) : i.val + 1 = n := by
  unfold next at last
  split at last
  next => contradiction
  next => omega

section
variable {s s' : State n Coro Ext}

omit [DecidableEq Coro] in
private theorem owed_of_update {u : Submitter n Ext} {p : Submission n Coro} {j : Fin n} (owed : s.owed j)
    (keeps : (s.submits u).targets = some j → p.targets = some j) : ∃ v, (Function.update s.submits u p v).targets = some j := by
  obtain ⟨v,targets⟩ := owed
  by_cases same : v = u
  · subst same
    exact ⟨v,by rw [Function.update_self]; exact keeps targets⟩
  · exact ⟨v,by rw [Function.update_of_ne same]; exact targets⟩

omit [DecidableEq Coro] [DecidableEq Ext] in
private theorem notifying_of_update {i j : Fin n} {p : StopCb n} (notifying : s.notifying j)
    (keeps : s.stopCb i = .wakeUp j → p = .wakeUp j) : ∃ w, Function.update s.stopCb i p w = .wakeUp j := by
  obtain ⟨w,here⟩ := notifying
  by_cases same : w = i
  · subst same
    exact ⟨w,by rw [Function.update_self]; exact keeps here⟩
  · exact ⟨w,by rw [Function.update_of_ne same]; exact here⟩

omit [DecidableEq Coro] [DecidableEq Ext] in
theorem running_of_mayCall {i : Fin n} (may : s.mayCall (.inl i) = true) : ∃ left handle, (s.ctxs i).pc = .running left handle := by
  have running := (Bool.and_eq_true_iff.mp may).2
  cases pc : (s.ctxs i).pc with
  | running left handle => exact ⟨left,handle,rfl⟩
  | _ => simp [pc,Context.isRunning] at running

omit [DecidableEq Coro] [DecidableEq Ext] in
theorem mayWork_cases {i : Fin n} {a : Context.Action Coro} (may : s.mayWork i a = true) :
    a = .step ∧ (s.ctxs i).pc ≠ .stopCb ∨ isWork a = true := by
  cases a with
  | step =>
    simp only [State.mayWork,Bool.and_eq_true,Bool.not_eq_true'] at may
    exact .inl ⟨rfl,fun pc => by simp [pc,atStopCb] at may⟩
  | accept | submitSelf | io | coAwait | suspend | post => exact .inr rfl
  | _ => contradiction

omit [DecidableEq Ext] in
theorem Awake.work (awake : Awake s) {i : Fin n} {a : Context.Action Coro} {c : Context.State Coro}
    (open' : s.closed i = false) (may : s.mayWork i a = true) (moved : Context.step (s.ctxs i) a = some c) :
    Awake (s.context i c) := by
  obtain ⟨watched,within,closed⟩ := awake
  have cases' := mayWork_cases may
  refine ⟨?_,?_,?_⟩
  · intro j
    by_cases same : j = i
    · subst same
      simp only [State.context,Function.update_self]
      rcases cases' with ⟨rfl,outside⟩ | work
      · exact (watched j).advance moved outside fun past => outside (within j past)
      · exact (watched j).others moved work
    · simp only [State.context,Function.update_of_ne same]
      exact watched j
  · intro j past
    by_cases same : j = i
    · subst same
      simp only [State.context,Function.update_self]
      rcases cases' with ⟨rfl,outside⟩ | work
      · exact absurd (within j past) outside
      · exact stopCb_of_work work moved (within j past)
    · simp only [State.context,Function.update_of_ne same]
      exact within j past
  · intro j gone
    have other : j ≠ i := fun same => by simp [State.context,same,open'] at gone
    simp only [State.context,Function.update_of_ne other]
    exact closed j gone

omit [DecidableEq Coro] in
theorem Awake.submitting (awake : Awake s) {u : Submitter n Ext} {p : Submission n Coro}
    (before : ∀ j, (s.submits u).targets = some j → p.targets = some j ∨ (s.ctxs j).pc = .returned) :
    Awake (s.submitting u p) := by
  obtain ⟨watched,within,closed⟩ := awake
  refine ⟨?_,within,closed⟩
  intro j
  by_cases gone : (s.ctxs j).pc = .returned
  · refine (watched j).left gone _ _ _ ?_
    intro past
    rw [within j past] at gone
    contradiction
  · refine (watched j).mono (fun flag polling => .inl ⟨flag,polling⟩) ?_ id
    intro owed
    exact owed_of_update owed fun targets => (before j targets).resolve_right gone

omit [DecidableEq Coro] in
/-- A submit, or a component, changes one context by what keeps it watched whatever
the others do. -/
theorem Awake.reaching (awake : Awake s) {u : Submitter n Ext} {i : Fin n} {p : Submission n Coro} {c : Context.State Coro}
    (before : ∀ j, (s.submits u).targets = some j → p.targets = some j ∨ j = i) (pc : c.pc = (s.ctxs i).pc)
    (safe : ∀ flagged past pending notifying, Watched c flagged past pending notifying) :
    Awake ((s.submitting u p).context i c) := by
  obtain ⟨watched,within,closed⟩ := awake
  have pcs : ∀ j, (Function.update s.ctxs i c j).pc = (s.ctxs j).pc := by
    intro j
    by_cases same : j = i
    · subst same
      simp only [Function.update_self,pc]
    · simp only [Function.update_of_ne same]
  refine ⟨?_,?_,?_⟩
  · intro j
    by_cases same : j = i
    · subst same
      simp only [State.context,Function.update_self]
      exact safe _ _ _ _
    · simp only [State.context,State.submitting,Function.update_of_ne same]
      refine (watched j).mono (fun flag polling => .inl ⟨flag,polling⟩) ?_ id
      intro owed
      exact owed_of_update owed fun targets => (before j targets).resolve_right same
  · exact fun j past => (pcs j).trans (within j past)
  · exact fun j gone => (pcs j).trans (closed j gone)

omit [DecidableEq Coro] [DecidableEq Ext] in
theorem Awake.calling (awake : Awake s) {i k : Fin n} {p : StopCb n} {c : Context.State Coro}
    (within : (s.ctxs i).pc = .stopCb) (before : ∀ j, s.stopCb i = .wakeUp j → p = .wakeUp j ∨ j = k)
    (pc : c.pc = (s.ctxs k).pc)
    (safe : Watched c (s.ctxStopFlag k ≠ 0) (Function.update s.stopCb i p k ≠ .fetchAnd) (s.owed k)
      (∃ w, Function.update s.stopCb i p w = .wakeUp k)) (past : s.stopCb i ≠ .fetchAnd) :
    Awake { s.context k c with stopCb := Function.update s.stopCb i p } := by
  have pcs : ∀ j, (Function.update s.ctxs k c j).pc = (s.ctxs j).pc := by
    intro j
    by_cases same : j = k
    · subst same
      simp only [Function.update_self,pc]
    · simp only [Function.update_of_ne same]
  have calls : ∀ j, Function.update s.stopCb i p j ≠ .fetchAnd → s.stopCb j ≠ .fetchAnd := by
    intro j later
    by_cases same : j = i
    · subst same
      exact past
    · rwa [Function.update_of_ne same] at later
  refine ⟨?_,?_,?_⟩
  · intro j
    by_cases same : j = k
    · subst same
      simp only [State.context,Function.update_self]
      exact safe
    · simp only [State.context,Function.update_of_ne same]
      refine (awake.watched j).mono (fun flag polling => .inl ⟨flag,polling.imp_right (calls j)⟩) id ?_
      intro notifying
      exact notifying_of_update notifying fun here => (before j here).resolve_right same
  · exact fun j later => (pcs j).trans (awake.within j (calls j later))
  · exact fun j gone => (pcs j).trans (awake.closed j gone)

omit [DecidableEq Coro] [DecidableEq Ext] in
theorem Awake.endCallback (awake : Awake s) {i : Fin n} (within : (s.ctxs i).pc = .stopCb)
    (past : s.stopCb i ≠ .fetchAnd) (quiet : ∀ j, s.stopCb i ≠ .wakeUp j) : Awake (s.endCallback i) := by
  refine ⟨?_,?_,?_⟩
  · intro j
    have note : s.notifying j → ∃ w, Function.update s.stopCb i .fetchAnd w = .wakeUp j :=
      fun notifying => notifying_of_update notifying fun here => absurd here (quiet j)
    by_cases same : j = i
    · subst same
      simp only [State.endCallback,State.context,Function.update_self]
      have watched := awake.watched j
      simp only [past,ne_eq,not_false_eq_true] at watched
      exact (watched.callbackEnds within).mono
        (fun flag polling => .inl ⟨flag,.inl (polling.resolve_right fun later => later rfl)⟩) id note
    · simp only [State.endCallback,State.context,Function.update_of_ne same]
      exact (awake.watched j).mono (fun flag polling => .inl ⟨flag,polling⟩) id note
  · intro j later
    by_cases same : j = i
    · subst same
      simp [State.endCallback] at later
    · simp only [State.endCallback,State.context,Function.update_of_ne same] at later ⊢
      exact awake.within j later
  · intro j gone
    have returned := awake.closed j gone
    have other : j ≠ i := fun same => by simp [same,within] at returned
    simp only [State.endCallback,State.context,Function.update_of_ne other]
    exact returned

omit [DecidableEq Coro] [DecidableEq Ext] in
theorem Awake.notified (awake : Awake s) {i k : Fin n} {c : Context.State Coro} (within : (s.ctxs i).pc = .stopCb)
    (here : s.stopCb i = .wakeUp k) (pc : c.pc = (s.ctxs k).pc)
    (safe : ∀ flagged past pending notifying : Prop, (past → c.pc = .stopCb) → Watched c flagged past pending notifying) :
    Awake ((s.context k c).notified i k) := by
  have past : s.stopCb i ≠ .fetchAnd := by simp [here]
  have before : ∀ p : StopCb n, ∀ j, s.stopCb i = .wakeUp j → p = .wakeUp j ∨ j = k := by
    intro p j here'
    rw [here] at here'
    cases here'
    exact .inr rfl
  have go : ∀ p : StopCb n, Awake { s.context k c with stopCb := Function.update s.stopCb i p } := by
    intro p
    refine awake.calling within (before p) pc (safe _ _ _ _ ?_) past
    intro later
    refine pc.trans ?_
    by_cases same : k = i
    · rw [same]
      exact within
    · rw [Function.update_of_ne same] at later
      exact awake.within k later
  unfold State.notified
  cases more : next k with
  | some k' => exact go _
  | none =>
    have pc' : (Function.update s.ctxs k c i).pc = .stopCb := by
      by_cases same : i = k
      · subst same
        rw [Function.update_self]
        exact pc.trans within
      · rwa [Function.update_of_ne same]
    have ends := (go (.fetchSub 0)).endCallback (i := i) pc' (by simp) (by simp)
    simpa [State.endCallback,State.context] using ends

omit [DecidableEq Coro] [DecidableEq Ext] in
theorem Awake.wait (awake : Awake s) {i : Fin n} {waits : Int} (may : s.mayCall (.inl i) = true) (nonneg : 0 ≤ waits) :
    Awake (s.context i { s.ctxs i with numWaitTask := waits }) := by
  obtain ⟨left,handle,running⟩ := running_of_mayCall may
  obtain ⟨watched,within,closed⟩ := awake
  have pcs : ∀ j, (Function.update s.ctxs i { s.ctxs i with numWaitTask := waits } j).pc = (s.ctxs j).pc := by
    intro j
    by_cases same : j = i
    · subst same
      simp only [Function.update_self]
    · simp only [Function.update_of_ne same]
  refine ⟨?_,fun j past => (pcs j).trans (within j past),fun j gone => (pcs j).trans (closed j gone)⟩
  intro j
  by_cases same : j = i
  · subst same
    simp only [State.context,Function.update_self]
    refine (watched j).waits running nonneg fun past => ?_
    rw [within j past] at running
    contradiction
  · simp only [State.context,Function.update_of_ne same]
    exact watched j

theorem Awake.effect {a : Action n Coro Ext} (awake : Awake s) (effect : Effect s a s') : Awake s' := by
  cases effect with
  | crash | spawn | assign => exact { awake with }
  | work i a c spawned open' may moved => exact awake.work open' may moved
  | wait i registerCnt may enough => exact awake.wait may enough
  | submit u handle may =>
    exact awake.submitting fun j targets => by simp [idle_of_mayCall may,Submission.targets] at targets
  | load u handle here =>
    exact awake.submitting fun j targets => by simp [here,Submission.targets] at targets
  | dispatch u handle ctxId here =>
    have later : Awake (s.submitting u (.fetchOr ctxId handle)) :=
      awake.submitting fun j targets => by simp [here,Submission.targets] at targets
    exact { later with }
  | fetchAdd u ctxId old handle here =>
    have later : Awake (s.submitting u (.push ctxId handle)) :=
      awake.submitting fun j targets => .inl (by simpa [here,Submission.targets] using targets)
    exact { later with }
  | fetchOr u ctxId handle here =>
    have later : Awake (s.submitting u (.fetchAdd ctxId (s.ctxStopFlag ctxId) handle)) :=
      awake.submitting fun j targets => by simp [here,Submission.targets] at targets
    refine ⟨?_,later.within,later.closed⟩
    intro j
    refine (later.watched j).mono ?_ id id
    intro flag polling
    by_cases same : j = ctxId
    · subst same
      exact .inr ⟨u,by simp [State.submitting,Submission.targets]⟩
    · exact .inl ⟨by simpa [State.submitting,Function.update_of_ne same] using flag,polling⟩
  | dropped u ctxId here closed =>
    refine awake.submitting fun j targets => .inr ?_
    have same : ctxId = j := by simpa [here,Submission.targets] using targets
    exact same ▸ awake.closed ctxId closed
  | resume u i handle may registered =>
    exact awake.reaching (fun j targets => by simp [idle_of_mayCall may,Submission.targets] at targets) rfl
      ((awake.watched i).pushed handle)
  | push u ctxId handle here =>
    exact awake.reaching (fun j targets => .inl (by simpa [here,Submission.targets] using targets)) rfl
      ((awake.watched ctxId).pushed handle)
  | written u ctxId here open' =>
    refine awake.reaching (fun j targets => .inr ?_) rfl ((awake.watched ctxId).written (by decide))
    simpa [here,Submission.targets,eq_comm] using targets
  | fetchAnd i within here =>
    refine ⟨?_,?_,awake.closed⟩
    · intro j
      refine (awake.watched j).mono ?_ id fun notifying => notifying_of_update notifying (by simp [here])
      intro flag polling
      have other : j ≠ i := fun same => by simp [same] at flag
      simp only [Function.update_of_ne other] at flag polling
      exact .inl ⟨flag,polling⟩
    · intro j later
      by_cases same : j = i
      · rw [same]
        exact within
      · exact awake.within j (by simpa [Function.update_of_ne same] using later)
  | stops i cnt within here last =>
    have past : s.stopCb i ≠ .fetchAnd := by simp [here]
    have later := awake.calling (k := i) (p := .requestStop ⟨0,i.pos⟩) within (fun j here' => by simp [here] at here') rfl
      ((awake.watched i).mono (fun flag polling => .inl ⟨flag,polling.imp_right fun _ => past⟩) id
        fun notifying => notifying_of_update notifying (by simp [here])) past
    rw [State.context,Function.update_eq_self] at later
    exact { later with }
  | subtracts i cnt within here more =>
    have later := awake.endCallback within (by simp [here]) (by simp [here])
    exact { later with }
  | requestStop i k within here assigned =>
    refine awake.calling within (fun j here' => by simp [here] at here') rfl ?_ (by simp [here])
    exact (awake.watched k).requested _ _ _ _ ⟨i,Function.update_self ..⟩
  | notified i k within here open' =>
    exact awake.notified within here rfl fun flagged past pending notifying _ =>
      (awake.watched k).written Nat.one_pos flagged past pending notifying
  | unnotified i k within here closed =>
    have returned := awake.closed k closed
    have later := awake.notified (c := s.ctxs k) within here rfl fun flagged past pending notifying later =>
      (awake.watched k).left returned _ _ _ fun now => by simp [returned] at later; exact later now
    rwa [State.context,Function.update_eq_self] at later
  | deinit i left open' =>
    have pcs : ∀ j, (Function.update s.ctxs i { s.ctxs i with taskQueue := [] } j).pc = (s.ctxs j).pc := by
      intro j
      by_cases same : j = i
      · subst same
        simp only [Function.update_self]
      · simp only [Function.update_of_ne same]
    refine ⟨?_,fun j past => (pcs j).trans (awake.within j past),?_⟩
    · intro j
      by_cases same : j = i
      · subst same
        simp only [State.context,Function.update_self]
        refine (awake.watched j).cleared left fun past => ?_
        rw [awake.within j past] at left
        contradiction
      · simp only [State.context,Function.update_of_ne same]
        exact awake.watched j
    · intro j gone
      refine (pcs j).trans ?_
      by_cases same : j = i
      · rw [same]
        exact left
      · exact awake.closed j (by simpa [Function.update_of_ne same] using gone)

omit [DecidableEq Coro] [DecidableEq Ext] in
theorem Stopping.keep (stopping : Stopping s) (stops : s'.stops = s.stops) (stopCb : s'.stopCb = s.stopCb)
    (stop : ∀ j, (s'.ctxs j).stop = (s.ctxs j).stop) (token : s.stopToken ≤ s'.stopToken) : Stopping s' := by
  obtain ⟨positive,stopped,notifies,requested,before,current⟩ := stopping
  refine ⟨?_,?_,?_,?_,?_,?_⟩
  · exact fun none i => (positive (stops ▸ none) i).trans token
  · exact fun j here => stops ▸ stopped j (stop j ▸ here)
  · exact fun w k here => stops ▸ notifies w k (stopCb ▸ here)
  · simpa only [stops,stopCb,stop] using requested
  · exact fun w k here j less => (stop j).trans (before w k (stopCb ▸ here) j less)
  · exact fun w k here => (stop k).trans (current w k (stopCb ▸ here))

omit [DecidableEq Coro] [DecidableEq Ext] in
theorem Stopping.calling (stopping : Stopping s) {i : Fin n} {p : StopCb n} (stopCb : s'.stopCb = Function.update s.stopCb i p)
    (stops : s.stops ≤ s'.stops) (stop : ∀ j, (s.ctxs j).stop = true → (s'.ctxs j).stop = true)
    (token : s'.stops = 0 → ∀ _ : Fin n, 1 ≤ s'.stopToken) (stopped : ∀ j, (s'.ctxs j).stop = true → s'.stops ≠ 0)
    (notifies : ∀ k, p.notifies = some k → s'.stops ≠ 0 ∧ ∀ j < k, (s'.ctxs j).stop = true)
    (current : ∀ k, p = .wakeUp k → (s'.ctxs k).stop = true)
    (requested : s'.stops ≠ 0 → s.stops = 0 ∨ (∃ k, (s.stopCb i).notifies = some k) →
      (∀ k, (s'.ctxs k).stop = true) ∨ ∃ k, p.notifies = some k) : Stopping s' := by
  have more : s.stops ≠ 0 → s'.stops ≠ 0 := by omega
  refine ⟨token,stopped,?_,?_,?_,?_⟩
  · intro w k here
    rw [stopCb] at here
    by_cases same : w = i
    · subst same
      rw [Function.update_self] at here
      exact (notifies k here).1
    · rw [Function.update_of_ne same] at here
      exact more (stopping.notifies w k here)
  · intro now
    rw [stopCb]
    have mine : (∃ k, p.notifies = some k) → ∃ w k, (Function.update s.stopCb i p w).notifies = some k := by
      rintro ⟨k,here⟩
      exact ⟨i,k,by rwa [Function.update_self]⟩
    by_cases first : s.stops = 0
    · exact (requested now (.inl first)).imp_right mine
    · rcases stopping.requested first with all | ⟨w,k,here⟩
      · exact .inl fun k => stop k (all k)
      · by_cases same : w = i
        · subst same
          exact (requested now (.inr ⟨k,here⟩)).imp_right mine
        · exact .inr ⟨w,k,by rwa [Function.update_of_ne same]⟩
  · intro w k here
    rw [stopCb] at here
    by_cases same : w = i
    · subst same
      rw [Function.update_self] at here
      exact (notifies k here).2
    · rw [Function.update_of_ne same] at here
      exact fun j less => stop j (stopping.before w k here j less)
  · intro w k here
    rw [stopCb] at here
    by_cases same : w = i
    · subst same
      rw [Function.update_self] at here
      exact current k here
    · rw [Function.update_of_ne same] at here
      exact stop k (stopping.current w k here)

omit [DecidableEq Coro] [DecidableEq Ext] in
theorem Stopping.notified (stopping : Stopping s) {i k : Fin n} (here : s.stopCb i = .wakeUp k)
    (stopCb : s'.stopCb = Function.update s.stopCb i (.after k)) (stops : s'.stops = s.stops)
    (stop : ∀ j, (s'.ctxs j).stop = (s.ctxs j).stop) (token : s'.stopToken = s.stopToken) : Stopping s' := by
  have note : (s.stopCb i).notifies = some k := by rw [here]; rfl
  have upTo : ∀ j ≤ k, (s'.ctxs j).stop = true := by
    intro j within
    rw [stop]
    rcases within.lt_or_eq with less | rfl
    · exact stopping.before i k note j less
    · exact stopping.current i j here
  refine stopping.calling stopCb stops.ge (fun j here => (stop j).trans here) ?_ ?_ ?_ ?_ ?_
  · exact fun none i => token ▸ stopping.positive (stops ▸ none) i
  · exact fun j here => stops ▸ stopping.stopped j (stop j ▸ here)
  · intro k' next'
    refine ⟨stops ▸ stopping.notifies i k note,fun j less => upTo j ?_⟩
    unfold StopCb.after at next'
    cases more : next k with
    | none => simp [more,StopCb.notifies] at next'
    | some k'' =>
      have follows := next_some more
      simp only [more,Option.elim_some,StopCb.notifies,Option.some.injEq] at next'
      subst next'
      exact Fin.le_def.mpr (by have := Fin.lt_def.mp less; omega)
  · intro k' next'
    unfold StopCb.after at next'
    cases more : next k <;> simp [more] at next'
  · intro _ _
    cases more : next k with
    | some k' => exact .inr ⟨k',by simp [StopCb.after,more,StopCb.notifies]⟩
    | none =>
      have last := next_none more
      exact .inl fun j => upTo j (Fin.le_def.mpr (by omega))

theorem Stopping.effect {a : Action n Coro Ext} (stopping : Stopping s) (bits : Bits s) (effect : Effect s a s') : Stopping s' := by
  cases effect with
  | crash | spawn | assign | submit | load | dispatch | fetchOr | dropped =>
    exact stopping.keep rfl rfl (fun _ => rfl) le_rfl
  | fetchAdd u ctxId old handle here =>
    refine stopping.keep rfl rfl (fun _ => rfl) ?_
    have := bits.olds u ctxId old handle here
    simp only
    omega
  | work i a c spawned open' may moved =>
    refine stopping.keep rfl rfl ?_ le_rfl
    intro j
    by_cases same : j = i
    · subst same
      simp only [State.context,Function.update_self]
      exact stop_of_work ((mayWork_cases may).imp_left And.left) moved
    · simp only [State.context,Function.update_of_ne same]
  | wait i | resume u i | push u i | written u i | deinit i =>
    refine stopping.keep rfl rfl ?_ le_rfl
    intro j
    by_cases same : j = i
    · subst same
      simp [State.context,State.submitting,Context.State.writeEventfd]
    · simp [State.context,State.submitting,Function.update_of_ne same]
  | fetchAnd i within here =>
    refine stopping.calling rfl le_rfl (fun _ => id) stopping.positive stopping.stopped (by simp [StopCb.notifies]) (by simp) ?_
    rintro now (first | ⟨k,note⟩)
    · exact absurd first now
    · simp [here,StopCb.notifies] at note
  | stops i cnt within here last =>
    refine stopping.calling rfl (Nat.le_succ _) (fun _ => id) (by simp) (by simp) ?_ (by simp) ?_
    · intro k note
      simp only [StopCb.notifies,Option.some.injEq] at note
      subst note
      refine ⟨Nat.succ_ne_zero _,fun j less => ?_⟩
      exact absurd (Fin.lt_def.mp less) (Nat.not_lt_zero _)
    · exact fun _ _ => .inr ⟨_,rfl⟩
  | subtracts i cnt within here more =>
    have stop : ∀ j, ((s.endCallback i).ctxs j).stop = (s.ctxs j).stop := by
      intro j
      by_cases same : j = i
      · subst same
        simp [State.endCallback,State.context]
      · simp [State.endCallback,State.context,Function.update_of_ne same]
    refine stopping.calling rfl le_rfl (fun j => (stop j).trans) ?_ ?_ (by simp [StopCb.notifies]) (by simp) ?_
    · intro none i
      have := stopping.positive none i
      have := bits.cnts _ _ here
      simp only
      omega
    · exact fun j here => stopping.stopped j ((stop j).symm.trans here)
    · rintro now (first | ⟨k,note⟩)
      · exact absurd first now
      · simp [here,StopCb.notifies] at note
  | requestStop i k within here assigned =>
    have note : (s.stopCb i).notifies = some k := by rw [here]; rfl
    have now := stopping.notifies i k note
    have stop : ∀ j, (s.ctxs j).stop = true → (Function.update s.ctxs k { s.ctxs k with stop := true } j).stop = true := by
      intro j here
      by_cases same : j = k
      · subst same
        simp only [Function.update_self]
      · rwa [Function.update_of_ne same]
    refine stopping.calling rfl le_rfl stop (fun none => absurd none now) (fun _ _ => now) ?_ ?_ ?_
    · intro k' here'
      simp only [StopCb.notifies,Option.some.injEq] at here'
      subst here'
      exact ⟨now,fun j less => stop j (stopping.before i k note j less)⟩
    · intro k' here'
      cases here'
      simp [State.context]
    · exact fun _ _ => .inr ⟨k,rfl⟩
  | notified i k within here open' =>
    refine stopping.notified here (by simp [State.context]) (by simp [State.context]) ?_ (by simp [State.context])
    intro j
    rw [notified_keeps _ i k Context.State.stop fun _ => rfl]
    exact update_keeps Context.State.stop (by rfl) j
  | unnotified i k within here closed =>
    exact stopping.notified here (by simp) (by simp) (notified_keeps s i k Context.State.stop fun _ => rfl) (by simp)

end

/-- Everything is done and every worker that has not left `run` sleeps. -/
structure Hangs (s : State n Coro Ext) : Prop where
  started : s.start = .done
  remaining : ∃ i, (s.ctxs i).pc ≠ .returned
  blocked : ∀ i, (s.ctxs i).pc ≠ .returned → (s.ctxs i).pc = .waitEventfd ∧ (s.ctxs i).efd = 0
  queues : ∀ i, (s.ctxs i).taskQueue = []
  io : ∀ i, (s.ctxs i).inFlight = 0
  waits : ∀ i, (s.ctxs i).numWaitTask = 0
  submits : ∀ u, s.submits u = .idle

section
variable {s : State n Coro Ext}

omit [DecidableEq Coro] [DecidableEq Ext] in
private theorem Hangs.not_busy (hangs : Hangs s) {i : Fin n} (counters : Context.Counters (s.ctxs i))
    (polling : (s.ctxs i).pc = .waitEventfd) : ¬ Busy (s.ctxs i) := by
  have total := counters.total
  have wait := counters.wait
  have running := counters.running
  rw [hangs.io i,polling] at total
  have none : (0 : Int) = (s.ctxs i).numIoWaitSubmit + (s.ctxs i).numIoRunning := by simpa [Context.Pc.reaped] using total
  rintro (queued | waiting | io)
  · exact queued (hangs.queues i)
  · exact waiting (hangs.waits i)
  · simp only [Context.State.emptyIo,decide_eq_false_iff_not] at io
    omega

omit [DecidableEq Coro] [DecidableEq Ext] in
private theorem Hangs.not_owed (hangs : Hangs s) (i : Fin n) : ¬ s.owed i := by
  rintro ⟨u,targets⟩
  simp [hangs.submits u,Submission.targets] at targets

omit [DecidableEq Coro] [DecidableEq Ext] in
theorem Hangs.quiet (hangs : Hangs s) (awake : Awake s) (w : Fin n) : s.stopCb w = .fetchAnd := by
  by_contra past
  have within := awake.within w past
  have polling := (hangs.blocked w (by simp [within])).1
  rw [within] at polling
  contradiction

omit [DecidableEq Coro] [DecidableEq Ext] in
/-- Once `stop_impl` has been called, the sleeper has its stop requested, and a wake-up with it. -/
theorem Hangs.not_stopped (hangs : Hangs s) (awake : Awake s) (stopping : Stopping s) : s.stops = 0 := by
  by_contra stops
  obtain ⟨i,here⟩ := hangs.remaining
  obtain ⟨polling,efd⟩ := hangs.blocked i here
  rcases stopping.requested stops with all | ⟨w,k,note⟩
  · have watched := awake.watched i
    rcases watched.stopped (all i) (by rw [polling]; rfl) with busy | written | ⟨w,note⟩
    · exact hangs.not_busy watched.counters polling busy
    · omega
    · rw [hangs.quiet awake w] at note
      contradiction
  · rw [hangs.quiet awake w] at note
    contradiction

omit [DecidableEq Coro] [DecidableEq Ext] in
/-- Before that every flag is cleared, so the token is zero too. -/
theorem Hangs.no_token [Fintype Ext] (hangs : Hangs s) (awake : Awake s) (stopping : Stopping s) (balanced : Balanced s) :
    s.stopToken = 0 := by
  have stops := hangs.not_stopped awake stopping
  have unstopped : ∀ i, (s.ctxs i).stop ≠ true := fun i stop => stopping.stopped i stop stops
  have flag : ∀ i, s.ctxStopFlag i = 0 := by
    intro i
    have watched := awake.watched i
    have here : (s.ctxs i).pc ≠ .returned := fun gone => unstopped i (watched.seen (by rw [gone]; rfl))
    obtain ⟨polling,efd⟩ := hangs.blocked i here
    by_contra flagged
    rcases watched.flagged flagged (.inl (by rw [polling]; rfl)) with stop | busy | written | owed
    · exact unstopped i stop
    · exact hangs.not_busy watched.counters polling busy
    · omega
    · exact hangs.not_owed i owed
  have adds : ∀ u, (s.submits u).adds = 0 := fun u => by rw [hangs.submits u]; rfl
  have subtracts : ∀ i, (s.stopCb i).subtracts = 0 := fun i => by rw [hangs.quiet awake i]; rfl
  simpa [Balanced,flag,adds,subtracts] using balanced

end

theorem reachable_awake_stopping (s : State n Coro Ext) (reachable : (machine n Coro Ext).Reachable s) :
    Awake s ∧ Stopping s := by
  have both : Bits s ∧ Awake s ∧ Stopping s :=
    Machine.Within.invariant (fun s fresh => And.intro (fresh_bits s fresh) (And.intro (fresh_awake s fresh) (fresh_stopping s fresh)))
      (fun _ _ _ before _ moved =>
        have effect := (effect_step moved).2
        And.intro (before.1.effect effect) (And.intro (before.2.1.effect effect) (before.2.2.effect before.1 effect)))
      reachable
  exact both.2

/-- No run of the scheduler reaches a state in which all work is done and a worker sleeps for ever. -/
theorem never_hangs [Fintype Ext] (s : State n Coro Ext) (reachable : (machine n Coro Ext).Reachable s) : ¬ Hangs s := by
  obtain ⟨awake,stopping⟩ := reachable_awake_stopping s reachable
  intro hangs
  obtain ⟨i,_⟩ := hangs.remaining
  have token := hangs.no_token awake stopping (reachable_balanced s reachable)
  have positive := stopping.positive (hangs.not_stopped awake stopping) i
  omega

/-- Two contexts. The coroutine of the first submits to the second; the first falls
asleep and the second, the last to go idle, begins to stop both. -/
def submitAcross : List (Action 2 Nat Empty) :=
  List.replicate 4 Action.start ++ List.replicate 2 (Action.work 0 .step) ++
    [Action.submit (.inl 0) 7] ++ List.replicate 6 (Action.proceed (.inl 0)) ++
    [Action.work 0 .suspend] ++ List.replicate 5 (Action.work 0 .step) ++ List.replicate 2 (Action.callback 0) ++
    List.replicate 8 (Action.work 0 .step) ++ List.replicate 2 (Action.callback 0) ++ [Action.work 0 .step] ++
    List.replicate 2 (Action.work 1 .step) ++ [Action.work 1 .suspend] ++ List.replicate 5 (Action.work 1 .step) ++
    List.replicate 2 (Action.callback 1)

theorem submit_across_hangs_not : ∃ s : State 2 Nat Empty,
    (machine 2 Nat Empty).run (initial 2 Empty 1 fun i => if i = 0 then [5] else []) submitAcross = some s ∧
    s.start = .done ∧ s.stops = 1 ∧ (s.ctxs 0).efd = 0 ∧ ¬ Hangs s := by
  have ran : ((machine 2 Nat Empty).run (initial 2 Empty 1 fun i => if i = 0 then [5] else []) submitAcross).map
      (fun s => (s.start,s.stops,(s.ctxs 0).efd)) = some (.done,1,0) := by decide
  obtain ⟨s,reached,shape⟩ := Option.map_eq_some_iff.mp ran
  simp only [Prod.mk.injEq] at shape
  refine ⟨s,reached,shape.1,shape.2.1,shape.2.2,never_hangs s ?_⟩
  exact Machine.run_reachable _ _ _ _ (.start (initial_fresh _ _)) reached

end TinyCoro.Scheduler
