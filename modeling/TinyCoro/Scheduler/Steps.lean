import TinyCoro.Scheduler.Loop

/-! Everything that one step of the scheduler can do. -/
namespace TinyCoro.Scheduler

variable {n : Nat} {Coro Ext : Type} [DecidableEq Coro] [DecidableEq Ext]

inductive Effect (s : State n Coro Ext) : Action n Coro Ext → State n Coro Ext → Prop
  | crash (a) : Effect s a { s with crashed := true }
  | spawn (i) (here : s.start = .spawn i) :
    Effect s .start { s with spawned := Function.update s.spawned i true, start := .assign i }
  | assign (i) (here : s.start = .assign i) :
    Effect s .start { s with
      job := Function.update s.job i true
      start := match next i with | some k => .spawn k | none => .done }
  | work (i a c) (spawned : s.spawned i = true) (open' : s.closed i = false) (may : s.mayWork i a = true)
      (moved : Context.step (s.ctxs i) a = some c) : Effect s (.work i a) (s.context i c)
  | wait (i registerCnt) (may : s.mayCall (.inl i) = true) (enough : 0 ≤ (s.ctxs i).numWaitTask + registerCnt) :
    Effect s (.wait i registerCnt)
      (s.context i { s.ctxs i with numWaitTask := (s.ctxs i).numWaitTask + registerCnt })
  | submit (u handle) (may : s.mayCall u = true) : Effect s (.submit u handle) (s.submitting u (.load handle))
  | resume (u i handle) (may : s.mayCall u = true) (registered : 0 < (s.ctxs i).numWaitTask) :
    Effect s (.resume u i handle)
      ((s.submitting u (.wakeUp i)).context i { s.ctxs i with taskQueue := (s.ctxs i).taskQueue ++ [handle] })
  | load (u handle) (here : s.submits u = .load handle) : Effect s (.proceed u) (s.submitting u (.dispatch handle))
  | dispatch (u handle ctxId) (here : s.submits u = .dispatch handle) (chosen : ctxId.val = s.cur % n) :
    Effect s (.proceed u) { s.submitting u (.fetchOr ctxId handle) with cur := (s.cur + 1) % 2^64 }
  | fetchOr (u ctxId handle) (here : s.submits u = .fetchOr ctxId handle) :
    Effect s (.proceed u) { s.submitting u (.fetchAdd ctxId (s.ctxStopFlag ctxId) handle) with
      ctxStopFlag := Function.update s.ctxStopFlag ctxId (s.ctxStopFlag ctxId ||| 1) }
  | fetchAdd (u ctxId old handle) (here : s.submits u = .fetchAdd ctxId old handle) :
    Effect s (.proceed u) { s.submitting u (.push ctxId handle) with stopToken := s.stopToken + (1 - old) }
  | push (u ctxId handle) (here : s.submits u = .push ctxId handle) :
    Effect s (.proceed u) ((s.submitting u (.wakeUp ctxId)).context ctxId
      { s.ctxs ctxId with taskQueue := (s.ctxs ctxId).taskQueue ++ [handle] })
  | written (u ctxId) (here : s.submits u = .wakeUp ctxId) (open' : s.closed ctxId = false) :
    Effect s (.proceed u) ((s.submitting u .idle).context ctxId ((s.ctxs ctxId).writeEventfd Context.taskFlag))
  | dropped (u ctxId) (here : s.submits u = .wakeUp ctxId) (closed : s.closed ctxId = true) :
    Effect s (.proceed u) (s.submitting u .idle)
  | fetchAnd (i) (within : (s.ctxs i).pc = .stopCb) (here : s.stopCb i = .fetchAnd) :
    Effect s (.callback i) { s with
      ctxStopFlag := Function.update s.ctxStopFlag i 0
      stopCb := Function.update s.stopCb i (.fetchSub (s.ctxStopFlag i)) }
  | stops (i cnt) (within : (s.ctxs i).pc = .stopCb) (here : s.stopCb i = .fetchSub cnt) (last : s.stopToken = cnt) :
    Effect s (.callback i) { s with
      stopToken := s.stopToken - cnt
      stopCb := Function.update s.stopCb i (.requestStop ⟨0,i.pos⟩)
      stops := s.stops + 1 }
  | subtracts (i cnt) (within : (s.ctxs i).pc = .stopCb) (here : s.stopCb i = .fetchSub cnt) (more : s.stopToken ≠ cnt) :
    Effect s (.callback i) { s.endCallback i with stopToken := s.stopToken - cnt }
  | requestStop (i k) (within : (s.ctxs i).pc = .stopCb) (here : s.stopCb i = .requestStop k) (assigned : s.job k = true) :
    Effect s (.callback i)
      { s.context k { s.ctxs k with stop := true } with stopCb := Function.update s.stopCb i (.wakeUp k) }
  | notified (i k) (within : (s.ctxs i).pc = .stopCb) (here : s.stopCb i = .wakeUp k) (open' : s.closed k = false) :
    Effect s (.callback i) ((s.context k ((s.ctxs k).writeEventfd 1)).notified i k)
  | unnotified (i k) (within : (s.ctxs i).pc = .stopCb) (here : s.stopCb i = .wakeUp k) (closed : s.closed k = true) :
    Effect s (.callback i) (s.notified i k)
  | deinit (i) (left : (s.ctxs i).pc = .returned) (open' : s.closed i = false) :
    Effect s (.deinit i)
      { s.context i { s.ctxs i with taskQueue := [] } with closed := Function.update s.closed i true }

section
variable {s s' : State n Coro Ext}

private theorem effect_proceed {u : Submitter n Ext} (moved : proceed s u = some s') : Effect s (.proceed u) s' := by
  cases here : s.submits u with
  | idle => simp [proceed,here] at moved
  | load handle =>
    simp only [proceed,here] at moved
    split at moved <;> cases moved
    · exact .crash _
    · exact .load u handle here
  | dispatch handle =>
    simp only [proceed,here] at moved
    split at moved
    next => cases moved; exact .dispatch u handle _ here rfl
    next => contradiction
  | fetchOr ctxId handle =>
    simp only [proceed,here,Option.some.injEq] at moved
    exact moved ▸ .fetchOr u ctxId handle here
  | fetchAdd ctxId old handle =>
    simp only [proceed,here,Option.some.injEq] at moved
    exact moved ▸ .fetchAdd u ctxId old handle here
  | push ctxId handle =>
    simp only [proceed,here,Option.some.injEq] at moved
    exact moved ▸ .push u ctxId handle here
  | wakeUp ctxId =>
    simp only [proceed,here] at moved
    split at moved
    next closed =>
      split at moved <;> cases moved
      · exact .crash _
      · exact .dropped u ctxId here closed
    next open' =>
      split at moved
      next => cases moved; exact .written u ctxId here (by simpa using open')
      next => contradiction

private theorem effect_callback {i : Fin n} (within : (s.ctxs i).pc = .stopCb) (moved : callback s i = some s') :
    Effect s (.callback i) s' := by
  cases here : s.stopCb i with
  | fetchAnd =>
    simp only [callback,here,Option.some.injEq] at moved
    exact moved ▸ .fetchAnd i within here
  | fetchSub cnt =>
    simp only [callback,here] at moved
    split at moved
    next last => cases moved; exact .stops i cnt within here last
    next more => cases moved; exact .subtracts i cnt within here more
  | requestStop k =>
    simp only [callback,here] at moved
    split at moved
    next assigned => cases moved; exact .requestStop i k within here assigned
    next => cases moved; exact .crash _
  | wakeUp k =>
    simp only [callback,here] at moved
    split at moved
    next closed =>
      split at moved <;> cases moved
      · exact .crash _
      · exact .unnotified i k within here closed
    next open' =>
      split at moved
      next => cases moved; exact .notified i k within here (by simpa using open')
      next => contradiction

omit [DecidableEq Coro] in
theorem atStopCb_iff {pc : Context.Pc Coro} : atStopCb pc = true ↔ pc = .stopCb := by
  cases pc <;> simp [atStopCb]

theorem effect_step {a : Action n Coro Ext} (moved : step s a = some s') : s.crashed = false ∧ Effect s a s' := by
  unfold step at moved
  split at moved
  next => contradiction
  next alive =>
  refine ⟨by simpa using alive,?_⟩
  cases a with
  | start =>
    simp only [act] at moved
    split at moved
    next i here => cases moved; exact .spawn i here
    next i here => cases moved; exact .assign i here
    next => contradiction
  | work i a =>
    simp only [act] at moved
    split at moved
    next allowed =>
      obtain ⟨spawned,open',may⟩ := allowed
      obtain ⟨c,worked,rfl⟩ := Option.map_eq_some_iff.mp moved
      exact .work i a c spawned open' may worked
    next => contradiction
  | wait i registerCnt =>
    simp only [act] at moved
    split at moved
    next allowed => cases moved; exact .wait i registerCnt allowed.1 allowed.2
    next => contradiction
  | submit u handle =>
    simp only [act] at moved
    split at moved
    next may => cases moved; exact .submit u handle may
    next => contradiction
  | resume u i handle =>
    simp only [act] at moved
    split at moved
    next allowed => cases moved; exact .resume u i handle allowed.1 allowed.2
    next => contradiction
  | proceed u => exact effect_proceed moved
  | callback i =>
    simp only [act] at moved
    split at moved
    next within => exact effect_callback (atStopCb_iff.mp within) moved
    next => contradiction
  | deinit i =>
    simp only [act] at moved
    split at moved
    next left =>
      split at moved
      next => contradiction
      next open' => cases moved; exact .deinit i left (by simpa using open')
    next => contradiction

end
end TinyCoro.Scheduler
