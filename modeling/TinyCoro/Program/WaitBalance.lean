import TinyCoro.Program.WorkerSteps

/-! The count of the waits holds in every run of a program, and what follows for
the coroutines that are suspended. -/
namespace TinyCoro.Program
open Library

section
variable {Coro : Type} [DecidableEq Coro] {c c' : Context.State Coro}

private theorem advance_keeps (moved : Context.advance c = some c') (noIo : c.cq = []) :
    Context.isRunning c.pc = false ∧ c'.numWaitTask = c.numWaitTask ∧ c'.cq = c.cq := by
  unfold Context.advance at moved
  split at moved
  all_goals next pc =>
    repeat' split at moved
    all_goals cases moved
    all_goals simp [pc,Context.isRunning,noIo,Context.State.writeEventfd,Context.State.handleCqe,
      Context.State.storeResult,Context.State.resume]
    all_goals split <;> simp [noIo]

theorem advance_pops (moved : Context.advance c = some c') {left : Nat} {handle : Coro} {rest : List Coro}
    (pc : c.pc = .exec (left+1)) (queue : c.taskQueue = handle::rest) :
    c'.pc = .running left handle ∧ c'.taskQueue = rest := by
  simp only [Context.advance,pc,queue,Option.some.injEq] at moved
  subst moved
  exact ⟨rfl,rfl⟩

theorem advance_still (moved : Context.advance c = some c') (noIo : c.cq = [])
    (leaving : noneFound c.pc = true → c.numWaitTask = 0)
    (other : ∀ left handle rest, c.pc = .exec (left+1) → c.taskQueue = handle::rest → False) :
    c'.taskQueue = c.taskQueue ∧ (noneFound c'.pc = true → c'.numWaitTask = 0) := by
  unfold Context.advance at moved
  split at moved
  all_goals next pc =>
    simp only [pc,noneFound] at leaving
    repeat' split at moved
    all_goals cases moved
    all_goals simp_all [noneFound,Context.State.writeEventfd,Context.State.emptyIo]

end

variable {Coro Ctx ι : Type} [DecidableEq Coro] [DecidableEq Ctx] [DecidableEq ι] {C : ι → Component Coro Ctx}

omit [DecidableEq Coro] in
theorem fresh_counted (lawful : ∀ i, (C i).Lawful) (s : State C) (fresh : Fresh s) : Counted s := by
  obtain ⟨contexts,once,distinct,starts,acting,places⟩ := fresh
  have outside : ∀ i t, s.place t ≠ .inside i := by
    intro i t inside
    rcases places t with ⟨queued,_⟩ | ⟨free,_⟩
    · simp [queued] at inside
    · simp [free] at inside
  have idle : ∀ i t, (C i).idle (s.comps i) t = true := fun i => ((lawful i).fresh _ (starts i)).1
  have counts : ∀ x, (s.ctxs x).numWaitTask = 0 := fun x => (contexts x).numWaitTask
  refine ⟨?_,?_,?_,?_,?_,?_,?_,?_,?_,?_,?_⟩
  · intro i
    exact .start (starts i)
  · intro i t
    exact iff_of_false (outside i t) (by simp [idle i t])
  · intro x t now
    simp [acting x] at now
  · intro x y t now
    simp [acting x] at now
  · intro i x
    rw [((lawful i).fresh _ (starts i)).2 x]
    exact (List.filter_eq_nil_iff.mpr fun t _ => by simpa using outside i t).symm
  · intro x t member free
    rcases places t with ⟨queued,_⟩ | ⟨_,absent⟩
    · simp [queued] at free
    · exact absent x member
  · intro x
    exact (once x).filter _
  · intro x y t _
    exact distinct x y t
  · intro x
    have none : s.waiting x = ∅ := by
      ext t
      simp [State.waiting,outside]
    rw [none]
    exact ⟨Set.finite_empty,by simp [counts x]⟩
  · intro x _
    exact counts x
  · intro x
    exact (contexts x).cq

variable {s s' : State C} {x : Ctx}

theorem Counted.work (counted : Counted s) (lawful : ∀ i, (C i).Lawful) (moved : work s x = some s') : Counted s' := by
  unfold Program.work at moved
  split at moved
  next => contradiction
  next c advanced =>
    obtain ⟨away,count,cq⟩ := advance_keeps advanced (counted.noIo x)
    have resting : ∀ t, s.acting x = some t → Context.isRunning c.pc = true := by
      intro t acting
      have running := (counted.acting x t acting).1
      simp [away] at running
    split at moved
    next left handle rest pc queue =>
      obtain ⟨pc',rfl⟩ := advance_pops advanced pc queue
      have leaving : noneFound c.pc = true → c.numWaitTask = 0 := by simp [pc',noneFound]
      unfold State.popped at moved
      split at moved
      next => contradiction
      next place =>
        obtain rfl := Option.some.inj moved
        exact counted.start place queue count cq resting leaving
      next i place =>
        obtain ⟨d,stepped,rfl⟩ := Option.map_eq_some_iff.mp moved
        exact counted.resume (lawful i) place stepped queue count cq (by simp [pc',Context.isRunning]) (by simp [pc',noneFound])
    next other =>
      obtain rfl := Option.some.inj moved
      obtain ⟨queue,leaving⟩ := advance_still advanced (counted.noIo x) (counted.unwaited x) fun left handle rest => other left handle rest
      exact counted.context queue count cq resting leaving

theorem Counted.turn (counted : Counted s) (lawful : ∀ i, (C i).Lawful) {i : ι} {a : (C i).Action}
    (moved : call s x i a = some s') : ∃ t c, s' = s.settle x i t c ∧ Turn s x i t c ((C i).site a) := by
  unfold Program.call at moved
  split at moved
  next => contradiction
  next t actor =>
    split at moved
    next turn =>
      obtain ⟨running,site,turn⟩ := turn
      obtain ⟨c,stepped,same⟩ := Option.map_eq_some_iff.mp moved
      have acts := (lawful i).acts _ c a t (counted.parts i) stepped actor
      exact ⟨t,c,same.symm,running,turn,site,.step (counted.parts i) trivial stepped,acts⟩
    next => contradiction

theorem Counted.step (counted : Counted s) (lawful : ∀ i, (C i).Lawful) {a : Action C} (moved : step s a = some s') :
    Counted s' := by
  have busy : ∀ x t, s.acting x = some t → Context.isRunning (s.ctxs x).pc = true := fun x t acting => (counted.acting x t acting).1
  cases a with
  | call x i a =>
    obtain ⟨t,c,rfl,turn⟩ := counted.turn lawful moved
    exact turn.counted (lawful i) counted
  | context x a =>
    cases a with
    | step => exact counted.work lawful moved
    | suspend =>
      simp only [Program.step] at moved
      split at moved
      next none =>
        obtain ⟨c,stepped,rfl⟩ := Option.map_eq_some_iff.mp moved
        simp only [Context.step] at stepped
        split at stepped
        next pc =>
          obtain rfl := Option.some.inj stepped
          exact counted.context rfl rfl rfl (by simp [none]) (by simp [noneFound])
        next => contradiction
      next => contradiction
    | submitSelf t =>
      simp only [Program.step] at moved
      split at moved
      next none =>
        obtain ⟨c,stepped,submitted⟩ := Option.bind_eq_some_iff.mp moved
        simp only [Context.step] at stepped
        split at stepped
        next pc =>
          obtain rfl := Option.some.inj stepped
          simp only [Program.submit] at submitted
          split at submitted
          next free =>
            obtain rfl := Option.some.inj submitted
            exact counted.submit free rfl rfl rfl (by simp [none]) (by simp [noneFound])
          next => contradiction
        next => contradiction
      next => contradiction
    | push t =>
      simp only [Program.step] at moved
      obtain ⟨c,stepped,submitted⟩ := Option.bind_eq_some_iff.mp moved
      obtain rfl := Option.some.inj stepped
      simp only [Program.submit] at submitted
      split at submitted
      next free =>
        obtain rfl := Option.some.inj submitted
        exact counted.submit free rfl rfl rfl (busy x) (counted.unwaited x)
      next => contradiction
    | wake | stopWake =>
      simp only [Program.step] at moved
      obtain ⟨c,stepped,rfl⟩ := Option.map_eq_some_iff.mp moved
      simp only [Context.step] at stepped
      split at stepped
      next =>
        obtain rfl := Option.some.inj stepped
        exact counted.context rfl rfl rfl (busy x) (counted.unwaited x)
      next => contradiction
    | requestStop =>
      simp only [Program.step] at moved
      obtain ⟨c,stepped,rfl⟩ := Option.map_eq_some_iff.mp moved
      obtain rfl := Option.some.inj stepped
      exact counted.context rfl rfl rfl (busy x) (counted.unwaited x)
    | _ => contradiction

theorem reachable_counted (lawful : ∀ i, (C i).Lawful) (s : State C) (reachable : (machine C).Reachable s) : Counted s :=
  reachable.invariant (fresh_counted lawful) fun _ _ _ counted _ moved => counted.step lawful moved

/-- The counter of every context is the number of its registered waits, and the
worker leaves `run` only when none of its coroutines is suspended in a component
and no handle that a component has pushed is left in its queue. -/
structure WaitsBalanced (s : State C) : Prop where
  counts : ∀ x, (s.waiting x).Finite ∧ (s.ctxs x).numWaitTask = (s.waiting x).ncard
  nonneg : ∀ x, 0 ≤ (s.ctxs x).numWaitTask
  covers : ∀ x, (s.suspended x).Finite ∧ ((s.suspended x).ncard : Int) ≤ (s.ctxs x).numWaitTask
  stays : ∀ x, (s.ctxs x).pc = .returned → s.suspended x = ∅
  drained : ∀ x, (s.ctxs x).pc = .returned → ∀ t ∈ (s.ctxs x).taskQueue, ∀ i, s.place t ≠ .inside i
  inTime : ∀ s' x i a, step s (.call x i a) = some s' → ∀ y, (s'.ctxs y).taskQueue ≠ (s.ctxs y).taskQueue →
    (s.ctxs y).pc ≠ .returned

omit [DecidableEq Coro] in
theorem Counted.covers (counted : Counted s) (lawful : ∀ i, (C i).Lawful) (x : Ctx) : s.suspended x ⊆ s.waiting x := by
  rintro t ⟨i,inside,asleep,home⟩
  obtain ⟨y,waits⟩ := (lawful i).asleep _ (counted.parts i) t asleep
  have home' := (lawful i).home _ (counted.parts i) y t waits
  obtain rfl := Option.some.inj (home.symm.trans home')
  exact ⟨i,inside,waits⟩

omit [DecidableEq Coro] in
theorem Counted.stays (counted : Counted s) (lawful : ∀ i, (C i).Lawful) (returned : (s.ctxs x).pc = .returned) :
    s.suspended x = ∅ := by
  have none := (counted.sized x).empty (counted.unwaited x (by simp [returned,noneFound]))
  exact Set.subset_eq_empty (counted.covers lawful x) none

omit [DecidableEq Coro] in
theorem Counted.pushed (counted : Counted s) (lawful : ∀ i, (C i).Lawful) {t : Coro} (member : t ∈ (s.ctxs x).taskQueue)
    {i : ι} (inside : s.place t = .inside i) : t ∈ s.suspended x := by
  have seen : t ∈ ((C i).contexts (s.comps i)).taskQueue x := by
    rw [counted.view i x]
    simp [member,inside]
  exact ⟨i,inside,(lawful i).queued _ (counted.parts i) x t seen⟩

/-- A component pushes a handle to no context whose worker has left. -/
theorem Counted.inTime (counted : Counted s) (lawful : ∀ i, (C i).Lawful) {i : ι} {a : (C i).Action}
    (moved : Program.step s (.call x i a) = some s') {y : Ctx} (pushed : (s'.ctxs y).taskQueue ≠ (s.ctxs y).taskQueue) :
    (s.ctxs y).pc ≠ .returned := by
  intro returned
  have after := counted.step lawful moved
  obtain ⟨t,c,rfl,turn⟩ := counted.turn lawful moved
  have gone : ((s.settle x i t c).ctxs y).pc = .returned := by
    rw [settle_pc]
    split <;> simp [returned,suspends]
  obtain ⟨more,queue⟩ := turn.acts.queue y
  rw [settle_taskQueue queue] at pushed
  obtain ⟨u,member⟩ := List.exists_mem_of_ne_nil more fun none => pushed (by simp [none])
  have there : u ∈ ((s.settle x i t c).ctxs y).taskQueue := by
    rw [settle_taskQueue queue]
    simp [member]
  have asleep := after.pushed lawful there (turn.pushed_place (lawful i) counted queue member)
  rw [after.stays lawful gone] at asleep
  exact asleep

theorem Counted.balanced (counted : Counted s) (lawful : ∀ i, (C i).Lawful) : WaitsBalanced s where
  counts := counted.sized
  nonneg x := (counted.sized x).nonneg
  covers x := (counted.sized x).subset (counted.covers lawful x)
  stays _ returned := counted.stays lawful returned
  drained x returned t member i inside := by
    have asleep := counted.pushed lawful member inside
    rw [counted.stays lawful returned] at asleep
    exact asleep
  inTime _ _ _ _ moved _ pushed := counted.inTime lawful moved pushed

end TinyCoro.Program
