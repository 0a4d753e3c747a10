import TinyCoro.Scheduler.NeverHangs
import TinyCoro.Context.Burden
import TinyCoro.Context.Standalone
import TinyCoro.Library.Settling

/-! Without new work the scheduler comes to rest: whatever the order of their steps,
`start_impl`, the workers, the kernel, the submits under way and the stop callbacks take
finitely many. -/
namespace TinyCoro.Scheduler
open Library

variable {n : Nat} {Coro Ext : Type}

/-- A step that begins nothing new. -/
def Continues : Action n Coro Ext → Prop
  | .start | .proceed _ | .callback _ | .deinit _ => True
  | .work _ a => Context.settles a = true
  | .wait _ _ | .submit _ _ | .resume _ _ _ => False

/-- The steps of a submit, with what its push and its write bring to a context. -/
def Submission.left : Submission n Coro → Nat
  | .idle => 0
  | .wakeUp _ => 18
  | .push _ _ => 29
  | .fetchAdd _ _ _ => 30
  | .fetchOr _ _ => 31
  | .dispatch _ => 32
  | .load _ => 33

/-- The steps of a callback, with what its writes bring to the contexts. -/
def StopCb.left : StopCb n → Nat
  | .fetchAnd => 2
  | .fetchSub _ => 1
  | .requestStop k => 19 * (n - k)
  | .wakeUp k => 19 * (n - k - 1) + 18

def Start.left : Start n → Nat
  | .spawn i => 2 * (n - i)
  | .assign i => 2 * (n - i - 1) + 1
  | .done => 0

/-- The callback of a context may still enter `stop_impl`, which requests all stops. -/
def mayStop (p : StopCb n) (c : Context.State Coro) : Nat :=
  if p.notifies.isSome = true then 0 else if c.stop = false ∨ c.pc.unstopped = true then 1 else 0

def submitsLeft [Fintype Ext] (submits : Submitter n Ext → Submission n Coro) : Nat := ∑ u, (submits u).left

def burdens (ctxs : Fin n → Context.State Coro) : Nat := ∑ i, (ctxs i).burden

def callbacksLeft (stopCb : Fin n → StopCb n) : Nat := ∑ w, (stopCb w).left

def mayStops (stopCb : Fin n → StopCb n) (ctxs : Fin n → Context.State Coro) : Nat := ∑ i, mayStop (stopCb i) (ctxs i)

def going : Bool → Nat
  | true => 0
  | false => 1

def opens (closed : Fin n → Bool) : Nat := ∑ i, going (closed i)

def State.left [Fintype Ext] (s : State n Coro Ext) : Nat :=
  going s.crashed + s.start.left + submitsLeft s.submits + burdens s.ctxs + callbacksLeft s.stopCb +
    (19 * n + 1) * mayStops s.stopCb s.ctxs + opens s.closed

section
variable {ctxs : Fin n → Context.State Coro} {stopCb : Fin n → StopCb n} {i : Fin n} {c : Context.State Coro} {p : StopCb n}

private theorem burdens_update (ctxs : Fin n → Context.State Coro) (i : Fin n) (c : Context.State Coro) :
    burdens (Function.update ctxs i c) + (ctxs i).burden = burdens ctxs + c.burden :=
  sum_update Context.State.burden ctxs i c

private theorem burdens_callback (within : (ctxs i).pc = .stopCb) :
    burdens (Function.update ctxs i { ctxs i with pc := .doIoSubmit }) + 3 = burdens ctxs := by
  have total := burdens_update ctxs i { ctxs i with pc := .doIoSubmit }
  have less := Context.burden_callback within
  dsimp only at total less ⊢
  omega

private theorem callbacksLeft_update (stopCb : Fin n → StopCb n) (i : Fin n) (p : StopCb n) :
    callbacksLeft (Function.update stopCb i p) + (stopCb i).left = callbacksLeft stopCb + p.left :=
  sum_update StopCb.left stopCb i p

private theorem mayStops_context (less : mayStop (stopCb i) c ≤ mayStop (stopCb i) (ctxs i)) :
    mayStops stopCb (Function.update ctxs i c) ≤ mayStops stopCb ctxs := by
  apply Finset.sum_le_sum
  intro j _
  by_cases same : j = i
  · rw [same,Function.update_self]
    exact less
  · rw [Function.update_of_ne same]

private theorem mayStops_callback (less : mayStop p (ctxs i) ≤ mayStop (stopCb i) (ctxs i)) :
    mayStops (Function.update stopCb i p) ctxs ≤ mayStops stopCb ctxs := by
  apply Finset.sum_le_sum
  intro j _
  by_cases same : j = i
  · rw [same,Function.update_self]
    exact less
  · rw [Function.update_of_ne same]

private theorem mayStops_stops (within : (ctxs i).pc = .stopCb) (silent : (stopCb i).notifies = none) (enters : p.notifies.isSome = true) :
    mayStops (Function.update stopCb i p) ctxs + 1 = mayStops stopCb ctxs := by
  have before : mayStop (stopCb i) (ctxs i) = 1 := by simp [mayStop,silent,within,Context.Pc.unstopped]
  have after : mayStop p (ctxs i) = 0 := if_pos enters
  have changed := sum_changed (fun j => mayStop (stopCb j) (ctxs j)) (fun j => mayStop (Function.update stopCb i p j) (ctxs j))
    (Finset.mem_univ i) fun j other => by rw [Function.update_of_ne other]
  rw [Function.update_self,before,after] at changed
  exact changed

private theorem mayStop_le {p' : StopCb n} {c' : Context.State Coro} (notifies : p.notifies.isSome = true → p'.notifies.isSome = true)
    (stops : c'.stop = false ∨ c'.pc.unstopped = true → c.stop = false ∨ c.pc.unstopped = true) : mayStop p' c' ≤ mayStop p c := by
  unfold mayStop
  by_cases within : p'.notifies.isSome = true
  · rw [if_pos within]
    exact Nat.zero_le _
  · rw [if_neg within,if_neg (mt notifies within)]
    by_cases may : c'.stop = false ∨ c'.pc.unstopped = true
    · rw [if_pos may,if_pos (stops may)]
    · rw [if_neg may]
      exact Nat.zero_le _

end

section
variable [DecidableEq Coro] {c c' : Context.State Coro} {a : Context.Action Coro}

private theorem unstopped_of_work (kind : Context.settles a = true) (moved : Context.step c a = some c') (now : c'.pc.unstopped = true) :
    c.stop = false ∨ c.pc.unstopped = true := by
  cases a with
  | step =>
    simp only [Context.step] at moved
    cases pc : c.pc with
    | idleWaitWork | notReady | stopCb => exact .inr rfl
    | stopNotRequested =>
      simp only [Context.advance,pc,Option.some.injEq] at moved
      subst moved
      by_cases stop : c.stop = true
      · simp [stop,Context.Pc.unstopped] at now
      · exact .inl (by simpa using stop)
    | exec left =>
      cases left with
      | zero =>
        simp only [Context.advance,pc,Option.some.injEq] at moved
        subst moved
        contradiction
      | succ left =>
        simp only [Context.advance,pc] at moved
        split at moved
        next => contradiction
        next => cases moved; contradiction
    | _ =>
      simp only [Context.advance,pc] at moved
      repeat' split at moved
      all_goals cases moved
      all_goals contradiction
  | accept | coAwait | suspend =>
    simp only [Context.step] at moved
    repeat' split at moved
    all_goals cases moved
    all_goals contradiction
  | post =>
    simp only [Context.step,Option.ite_none_right_eq_some,Option.some.injEq] at moved
    obtain ⟨_,rfl⟩ := moved
    exact .inr now
  | _ => contradiction

omit [DecidableEq Coro] in
private theorem own_of_settles (kind : Context.settles a = true) : a = .step ∨ isWork a = true := by
  cases a with
  | step => exact .inl rfl
  | accept | coAwait | suspend | post => exact .inr rfl
  | _ => contradiction

private theorem mayStop_work {p : StopCb n} (kind : Context.settles a = true) (moved : Context.step c a = some c') :
    mayStop p c' ≤ mayStop p c := by
  apply mayStop_le id
  intro may
  rcases may with stop | now
  · exact .inl (stop_of_work (own_of_settles kind) moved ▸ stop)
  · exact unstopped_of_work kind moved now

end

variable [DecidableEq Coro] [DecidableEq Ext] [Fintype Ext]

section
variable {s s' : State n Coro Ext} {a : Action n Coro Ext}

omit [DecidableEq Coro] in
private theorem submitsLeft_update (submits : Submitter n Ext → Submission n Coro) (u : Submitter n Ext) (p : Submission n Coro) :
    submitsLeft (Function.update submits u p) + (submits u).left = submitsLeft submits + p.left :=
  sum_update Submission.left submits u p

private theorem after_left (k : Fin n) :
    (StopCb.after k).left + (if next k = none then 16 else 18) = (StopCb.wakeUp k : StopCb n).left := by
  have bound := k.isLt
  cases more : next k with
  | none =>
    have last := next_none more
    simp only [StopCb.after,more,Option.elim_none,StopCb.left,if_true]
    omega
  | some k' =>
    have val := next_some more
    simp only [StopCb.after,more,Option.elim_some,StopCb.left,reduceCtorEq,if_false]
    omega

omit [DecidableEq Coro] [DecidableEq Ext] [Fintype Ext] in
/-- After a `notify_stop` the loop of `stop_impl` goes on, or the callback ends with its
own stop requested. -/
theorem mayStops_notified {i k : Fin n} (here : (s.stopCb i).notifies.isSome = true) (stopped : next k = none → (s.ctxs i).stop = true) :
    mayStops (s.notified i k).stopCb (s.notified i k).ctxs ≤ mayStops s.stopCb s.ctxs := by
  have before : mayStop (s.stopCb i) (s.ctxs i) = 0 := if_pos here
  apply Finset.sum_le_sum
  intro j _
  rw [notified_stopCb]
  rcases notified_ctxs s i k with ⟨ctxs,k',more⟩ | ⟨last,ctxs⟩
  · rw [ctxs]
    by_cases mine : j = i
    · rw [mine,Function.update_self,StopCb.after,more]
      exact Nat.zero_le _
    · rw [Function.update_of_ne mine]
  · rw [ctxs]
    by_cases mine : j = i
    · rw [mine,Function.update_self,Function.update_self]
      have after : mayStop (StopCb.after k) { s.ctxs i with pc := .doIoSubmit } = 0 := by
        simp [mayStop,StopCb.after,last,StopCb.notifies,stopped last,Context.Pc.unstopped]
      rw [after]
      exact Nat.zero_le _
    · rw [Function.update_of_ne mine,Function.update_of_ne mine]

omit [DecidableEq Coro] [DecidableEq Ext] [Fintype Ext] in
private theorem burdens_notified {i k : Fin n} (within : (s.ctxs i).pc = .stopCb) :
    burdens (s.notified i k).ctxs + (if next k = none then 3 else 0) = burdens s.ctxs := by
  rcases notified_ctxs s i k with ⟨ctxs,k',more⟩ | ⟨last,ctxs⟩
  · simp [ctxs,more]
  · rw [ctxs,if_pos last]
    exact burdens_callback within

omit [DecidableEq Coro] [DecidableEq Ext] in
private theorem left_context {k : Fin n} {c : Context.State Coro} {more : Nat} (burden : c.burden ≤ (s.ctxs k).burden + more)
    (stop : c.stop = (s.ctxs k).stop) (pc : c.pc = (s.ctxs k).pc) : (s.context k c).left ≤ s.left + more := by
  have total := burdens_update s.ctxs k c
  have same : mayStop (s.stopCb k) c ≤ mayStop (s.stopCb k) (s.ctxs k) := mayStop_le id (by rw [stop,pc]; exact id)
  have stops := Nat.mul_le_mul_left (19 * n + 1) (mayStops_context same)
  simp only [State.left,State.context]
  omega

omit [DecidableEq Coro] in
private theorem left_submitting (u : Submitter n Ext) (p : Submission n Coro) :
    (s.submitting u p).left + (s.submits u).left = s.left + p.left := by
  have total := submitsLeft_update s.submits u p
  simp only [State.left,State.submitting]
  omega

omit [DecidableEq Coro] in
private theorem left_proceeds {u : Submitter n Ext} {p q : Submission n Coro} (here : s.submits u = q)
    (submits : s'.submits = Function.update s.submits u p) (less : p.left < q.left) (crashed : s'.crashed = s.crashed)
    (start : s'.start = s.start) (ctxs : s'.ctxs = s.ctxs) (stopCb : s'.stopCb = s.stopCb) (closed : s'.closed = s.closed) :
    s'.left < s.left := by
  have total := submitsLeft_update s.submits u p
  rw [here] at total
  simp only [State.left,submits,crashed,start,ctxs,stopCb,closed]
  omega

omit [DecidableEq Coro] [DecidableEq Ext] in
private theorem left_calling {i : Fin n} {p q : StopCb n} (here : s.stopCb i = q) (stopCb : s'.stopCb = Function.update s.stopCb i p)
    (crashed : s'.crashed = s.crashed) (start : s'.start = s.start) (submits : s'.submits = s.submits) (closed : s'.closed = s.closed)
    (stops : mayStops s'.stopCb s'.ctxs ≤ mayStops s.stopCb s.ctxs) (less : burdens s'.ctxs + p.left < burdens s.ctxs + q.left) :
    s'.left < s.left := by
  have total := callbacksLeft_update s.stopCb i p
  have stops := Nat.mul_le_mul_left (19 * n + 1) stops
  rw [here,← stopCb] at total
  simp only [State.left,crashed,start,submits,closed]
  omega

omit [DecidableEq Coro] [DecidableEq Ext] in
private theorem left_notified {i k : Fin n} (within : (s.ctxs i).pc = .stopCb) (here : s.stopCb i = .wakeUp k)
    (stopped : next k = none → (s.ctxs i).stop = true) : (s.notified i k).left + 18 ≤ s.left := by
  have burden := burdens_notified (k := k) within
  have callbacks := callbacksLeft_update s.stopCb i (.after k)
  have after := after_left k
  have stops := Nat.mul_le_mul_left (19 * n + 1) (mayStops_notified (k := k) (by rw [here]; rfl) stopped)
  rw [here] at callbacks
  rw [notified_stopCb] at stops
  simp only [State.left,notified_crashed,notified_start,notified_submits,notified_closed,notified_stopCb]
  split at after
  next last =>
    rw [if_pos last] at burden
    omega
  next more =>
    rw [if_neg more] at burden
    omega

omit [DecidableEq Coro] [DecidableEq Ext] [Fintype Ext] in
theorem Stopping.last (stopping : Stopping s) {w k : Fin n} (here : s.stopCb w = .wakeUp k) (last : next k = none) (i : Fin n) :
    (s.ctxs i).stop = true := by
  have val := next_none last
  have bound := i.isLt
  by_cases same : i = k
  · rw [same]
    exact stopping.current w k here
  · apply stopping.before w k (by rw [here]; rfl) i
    apply Fin.lt_def.mpr
    have apart : i.val ≠ k.val := fun equal => same (Fin.ext equal)
    omega

/-- Every step that begins nothing new leaves less to do. -/
theorem left_effect (kind : Continues a) (stopping : Stopping s) (alive : s.crashed = false) (effect : Effect s a s') :
    s'.left < s.left := by
  cases effect with
  | crash =>
    simp only [State.left,alive,going]
    omega
  | spawn i here =>
    have bound := i.isLt
    simp only [State.left,here,Start.left]
    omega
  | assign i here =>
    have bound := i.isLt
    cases more : next i with
    | none =>
      simp only [State.left,here,Start.left]
      omega
    | some k =>
      have val := next_some more
      simp only [State.left,here,Start.left]
      omega
  | work i b c spawned open' may moved =>
    have less := Context.burden_work kind moved
    have total := burdens_update s.ctxs i c
    have fewer : mayStops s.stopCb (Function.update s.ctxs i c) ≤ mayStops s.stopCb s.ctxs := mayStops_context (mayStop_work kind moved)
    have stops := Nat.mul_le_mul_left (19 * n + 1) fewer
    simp only [State.left,State.context]
    omega
  | wait | submit | resume => contradiction
  | load u handle here => exact left_proceeds here rfl (by simp [Submission.left]) rfl rfl rfl rfl rfl
  | dispatch u handle ctxId here => exact left_proceeds here rfl (by simp [Submission.left]) rfl rfl rfl rfl rfl
  | fetchOr u ctxId handle here => exact left_proceeds here rfl (by simp [Submission.left]) rfl rfl rfl rfl rfl
  | fetchAdd u ctxId old handle here => exact left_proceeds here rfl (by simp [Submission.left]) rfl rfl rfl rfl rfl
  | push u k handle here =>
    have submitted := left_submitting (s := s) u (.wakeUp k)
    have pushed := left_context (s := s.submitting u (.wakeUp k)) (k := k) (Context.burden_push (s := s.ctxs k) handle) rfl rfl
    rw [here] at submitted
    simp only [Submission.left] at submitted
    exact Nat.lt_of_le_of_lt pushed (by omega)
  | written u k here open' =>
    have submitted := left_submitting (s := s) u .idle
    have written := left_context (s := s.submitting u .idle) (k := k) (Context.burden_writeEventfd (s := s.ctxs k) Context.taskFlag) rfl rfl
    rw [here] at submitted
    simp only [Submission.left] at submitted
    exact Nat.lt_of_le_of_lt written (by omega)
  | dropped u k here => exact left_proceeds here rfl (by simp [Submission.left]) rfl rfl rfl rfl rfl
  | fetchAnd i within here =>
    have silent : mayStop (.fetchSub (s.ctxStopFlag i)) (s.ctxs i) ≤ mayStop (s.stopCb i) (s.ctxs i) :=
      mayStop_le (by simp [here,StopCb.notifies]) id
    refine left_calling here rfl rfl rfl rfl rfl (mayStops_callback silent) ?_
    simp [StopCb.left]
  | stops i cnt within here last =>
    have callbacks := callbacksLeft_update s.stopCb i (.requestStop ⟨0,i.pos⟩)
    have stops : mayStops (Function.update s.stopCb i (.requestStop ⟨0,i.pos⟩)) s.ctxs + 1 = mayStops s.stopCb s.ctxs :=
      mayStops_stops within (by rw [here]; rfl) rfl
    rw [here] at callbacks
    simp only [StopCb.left] at callbacks
    simp only [State.left,← stops,Nat.mul_succ]
    omega
  | subtracts i cnt within here more =>
    have silent : mayStop .fetchAnd (s.ctxs i) ≤ mayStop (s.stopCb i) (s.ctxs i) := mayStop_le (by simp [here,StopCb.notifies]) id
    have burden := burdens_callback within
    refine left_calling here rfl rfl rfl rfl rfl ?_ ?_
    · refine (mayStops_context ?_).trans (mayStops_callback silent)
      exact mayStop_le id fun may => may.imp_right fun now => by simp [Context.Pc.unstopped] at now
    · simp only [StopCb.left,State.endCallback,State.context] at burden ⊢
      omega
  | requestStop i k within here =>
    have silent : mayStop (.wakeUp k) (s.ctxs i) ≤ mayStop (s.stopCb i) (s.ctxs i) := mayStop_le (by simp [here,StopCb.notifies]) id
    have bound := k.isLt
    have same : burdens (Function.update s.ctxs k { s.ctxs k with stop := true }) = burdens s.ctxs :=
      Finset.sum_congr rfl fun j _ => update_keeps Context.State.burden (by rfl) j
    refine left_calling here rfl rfl rfl rfl rfl ?_ ?_
    · refine (mayStops_context ?_).trans (mayStops_callback silent)
      exact mayStop_le id fun may => .inr (may.resolve_left (by simp))
    · simp only [State.context,StopCb.left]
      rw [same]
      omega
  | notified i k within here open' =>
    have written := left_context (s := s) (k := k) (Context.burden_writeEventfd (s := s.ctxs k) 1) rfl rfl
    have within' : ((s.context k ((s.ctxs k).writeEventfd 1)).ctxs i).pc = .stopCb :=
      (update_keeps Context.State.pc (by rfl) i).trans within
    have went := left_notified within' here fun last => (update_keeps Context.State.stop (by rfl) i).trans (stopping.last here last i)
    omega
  | unnotified i k within here closed =>
    have went := left_notified within here fun last => stopping.last here last i
    omega
  | deinit i left open' =>
    have cleared : (s.context i { s.ctxs i with taskQueue := [] }).left ≤ s.left + 0 := left_context (Context.burden_clear left) rfl rfl
    have fewer := sum_update going s.closed i true
    rw [open'] at fewer
    simp only [State.left,State.context,opens,going] at cleared fewer ⊢
    omega

end

/-- From every reachable state all schedules without new work are finite. -/
theorem steps_end (s : State n Coro Ext) (reachable : (machine n Coro Ext).Reachable s) :
    Acc (Function.swap ((machine n Coro Ext).Moves Continues)) s := by
  apply Machine.ends_of_left (fun s left => (machine n Coro Ext).Reachable s ∧ s.left = left) _ s s.left ⟨reachable,rfl⟩
  rintro s t a left ⟨reachable,rfl⟩ kind moved
  obtain ⟨alive,effect⟩ := effect_step moved
  exact ⟨t.left,⟨.step reachable trivial moved,rfl⟩,left_effect kind (reachable_awake_stopping s reachable).2 alive effect⟩

end TinyCoro.Scheduler
