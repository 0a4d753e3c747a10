import TinyCoro.Program.Components

/-! Every coroutine is in one place: its handle is in at most one task queue, once, and
then nobody executes it; a wait goes on in the context of its own awaiter. -/
namespace TinyCoro.Program
open Library

variable {Coro Ctx ι : Type}

/-- No handle that a component has pushed is in one queue twice. -/
def Component.PushesOnce [DecidableEq Ctx] (C : Component Coro Ctx) : Prop :=
  ∀ c, C.machine.Reachable c → ∀ x, ((C.contexts c).taskQueue x).Nodup

variable [DecidableEq Coro] [DecidableEq Ctx]

variable [DecidableEq ι] {C : ι → Component Coro Ctx} {s s' : State C} {x y : Ctx} {t : Coro}

section
variable (counted : Counted s) (lawful : ∀ i, (C i).Lawful)
include counted

omit [DecidableEq Coro] [DecidableEq Ctx] in
theorem Counted.seen {i : ι} (member : t ∈ (s.ctxs x).taskQueue) (inside : s.place t = .inside i) :
    t ∈ ((C i).contexts (s.comps i)).taskQueue x := by
  rw [counted.view i x]
  simp [member,inside]

include lawful

omit [DecidableEq Coro] in
/-- A handle in a queue is that of a coroutine not yet executed, or of one that sleeps
in a wait of this context. -/
theorem Counted.rests (member : t ∈ (s.ctxs x).taskQueue) : s.place t = .queued ∨
    ∃ i, s.place t = .inside i ∧ (C i).suspended (s.comps i) t = true ∧ (C i).home (s.comps i) t = some x := by
  cases place : s.place t with
  | free => exact absurd place (counted.queued x t member)
  | queued => exact .inl rfl
  | inside i => exact .inr ⟨i,rfl,(lawful i).queued _ (counted.parts i) x t (counted.seen member place)⟩

omit [DecidableEq Coro] in
private theorem Counted.one_queue (member : t ∈ (s.ctxs x).taskQueue) (member' : t ∈ (s.ctxs y).taskQueue) : x = y := by
  rcases counted.rests lawful member with queued | ⟨i,inside,_,home⟩
  · exact counted.apart x y t queued member member'
  · rcases counted.rests lawful member' with queued | ⟨j,inside',_,home'⟩
    · simp [inside] at queued
    · cases inside.symm.trans inside'
      exact Option.some.inj (home.symm.trans home')

theorem Counted.nodup (once : ∀ i, (C i).PushesOnce) (x : Ctx) : (s.ctxs x).taskQueue.Nodup := by
  apply List.nodup_iff_count_le_one.mpr
  intro t
  have part : ∀ p : Coro → Bool, p t = true → ((s.ctxs x).taskQueue.filter p).Nodup → (s.ctxs x).taskQueue.count t ≤ 1 := by
    intro p here distinct
    rw [← List.count_filter here]
    exact List.nodup_iff_count_le_one.mp distinct t
  by_cases member : t ∈ (s.ctxs x).taskQueue
  · rcases counted.rests lawful member with queued | ⟨i,inside,_⟩
    · exact part _ (by simpa using queued) (counted.once x)
    · refine part (fun u => s.place u = .inside i) (by simpa using inside) ?_
      rw [← counted.view i x]
      exact once i _ (counted.parts i) x
  · rw [List.count_eq_zero_of_not_mem member]
    exact Nat.zero_le 1

omit [DecidableEq Coro] in
theorem Counted.unqueued (acting : s.acting y = some t) : t ∉ (s.ctxs x).taskQueue := by
  intro member
  obtain ⟨_,i,inside,awake,_⟩ := counted.acting y t acting
  rcases counted.rests lawful member with queued | ⟨j,inside',asleep,_⟩
  · simp [inside] at queued
  · cases inside.symm.trans inside'
    simp [asleep] at awake

end

omit [DecidableEq Coro] [DecidableEq ι] in
private theorem keeps_context {c : Context.State Coro} {more : List Coro} (queue : c.taskQueue = (s.ctxs x).taskQueue ++ more) (y : Ctx)
    (t : Coro) (member : t ∈ (s.ctxs y).taskQueue) : t ∈ ((s.context x c).ctxs y).taskQueue := by
  simp only [State.context,Function.update_apply]
  split
  next here =>
    subst here
    rw [queue]
    exact List.mem_append_left more member
  next => exact member

theorem popped_ctxs (moved : s.popped x t = some s') : s'.ctxs = s.ctxs := by
  unfold State.popped at moved
  split at moved
  next => contradiction
  next =>
    cases moved
    rfl
  next =>
    obtain ⟨_,_,rfl⟩ := Option.map_eq_some_iff.mp moved
    rfl

private theorem work_queues (counted : Counted s) (moved : work s x = some s') (y : Ctx) (t : Coro)
    (member : t ∈ (s'.ctxs y).taskQueue) : t ∈ (s.ctxs y).taskQueue := by
  have taken : ∃ c, s'.ctxs = (s.context x c).ctxs ∧ ∀ u ∈ c.taskQueue, u ∈ (s.ctxs x).taskQueue := by
    unfold Program.work at moved
    split at moved
    next => contradiction
    next c advanced =>
      refine ⟨c,?_⟩
      split at moved
      next left handle rest pc queue =>
        refine ⟨popped_ctxs moved,fun u there => ?_⟩
        rw [(advance_pops advanced pc queue).2] at there
        rw [queue]
        exact List.mem_cons_of_mem handle there
      next other =>
        have still := advance_still advanced (counted.noIo x) (counted.unwaited x) fun left handle rest => other left handle rest
        exact ⟨congrArg State.ctxs (Option.some.inj moved).symm,fun u there => still.1 ▸ there⟩
  obtain ⟨c,ctxs,taken⟩ := taken
  rw [ctxs] at member
  simp only [State.context,Function.update_apply] at member
  split at member
  next here => exact here ▸ taken t member
  next => exact member

/-- Only a worker takes handles out of a queue. -/
theorem queues_step (counted : Counted s) (lawful : ∀ i, (C i).Lawful) {a : Action C} (moved : step s a = some s') :
    (∃ z, a = .context z .step ∧ ∀ y t, t ∈ (s'.ctxs y).taskQueue → t ∈ (s.ctxs y).taskQueue) ∨
      ∀ y t, t ∈ (s.ctxs y).taskQueue → t ∈ (s'.ctxs y).taskQueue := by
  cases a with
  | call x i a =>
    obtain ⟨t,c,rfl,turn⟩ := counted.turn lawful moved
    refine .inr fun y u member => ?_
    obtain ⟨more,queue⟩ := turn.acts.queue y
    rw [settle_taskQueue queue]
    exact List.mem_append_left more member
  | context x a =>
    cases a with
    | step => exact .inl ⟨x,rfl,work_queues counted moved⟩
    | suspend =>
      simp only [Program.step] at moved
      split at moved
      next none =>
        obtain ⟨c,stepped,rfl⟩ := Option.map_eq_some_iff.mp moved
        simp only [Context.step] at stepped
        split at stepped
        next pc =>
          obtain rfl := Option.some.inj stepped
          exact .inr (keeps_context (List.append_nil _).symm)
        next => contradiction
      next => contradiction
    | submitSelf t =>
      simp only [Program.step] at moved
      split at moved
      next none =>
        obtain ⟨c,stepped,submitted⟩ := Option.bind_eq_some_iff.mp moved
        simp only [Context.step] at stepped
        split at stepped
        next pc =>
          obtain rfl := Option.some.inj stepped
          simp only [Program.submit] at submitted
          split at submitted
          next free =>
            obtain rfl := Option.some.inj submitted
            exact .inr (keeps_context rfl)
          next => contradiction
        next => contradiction
      next => contradiction
    | push t =>
      simp only [Program.step] at moved
      obtain ⟨c,stepped,submitted⟩ := Option.bind_eq_some_iff.mp moved
      obtain rfl := Option.some.inj stepped
      simp only [Program.submit] at submitted
      split at submitted
      next free =>
        obtain rfl := Option.some.inj submitted
        exact .inr (keeps_context rfl)
      next => contradiction
    | wake | stopWake =>
      simp only [Program.step] at moved
      obtain ⟨c,stepped,rfl⟩ := Option.map_eq_some_iff.mp moved
      simp only [Context.step] at stepped
      split at stepped
      next =>
        obtain rfl := Option.some.inj stepped
        exact .inr (keeps_context (List.append_nil _).symm)
      next => contradiction
    | requestStop =>
      simp only [Program.step] at moved
      obtain ⟨c,stepped,rfl⟩ := Option.map_eq_some_iff.mp moved
      obtain rfl := Option.some.inj stepped
      exact .inr (keeps_context (List.append_nil _).symm)
    | _ => contradiction

theorem Counted.pushes (counted : Counted s) (lawful : ∀ i, (C i).Lawful) {a : Action C} (moved : Program.step s a = some s')
    (member : t ∈ (s'.ctxs x).taskQueue) (new : t ∉ (s.ctxs x).taskQueue) (y : Ctx) : t ∉ (s.ctxs y).taskQueue := by
  intro old
  rcases queues_step counted lawful moved with ⟨_,_,takes⟩ | keeps
  · exact new (takes x t member)
  · obtain rfl := (counted.step lawful moved).one_queue lawful member (keeps y t old)
    exact new old

theorem Counted.resumes (counted : Counted s) (lawful : ∀ i, (C i).Lawful) (once : ∀ i, (C i).PushesOnce)
    (moved : Program.step s (.context x .step) = some s') {left : Nat} {rest : List Coro} (pc : (s.ctxs x).pc = .exec (left+1))
    (queue : (s.ctxs x).taskQueue = t::rest) : (s'.ctxs x).pc = .running left t ∧ (∀ y, t ∉ (s'.ctxs y).taskQueue) ∧
      (s.place t = .queued ∧ s'.place t = .free ∨ ∃ i, s.place t = .inside i ∧ s'.acting x = some t) := by
  have front : t ∈ (s.ctxs x).taskQueue := by simp [queue]
  simp only [Program.step,Program.work] at moved
  split at moved
  next => contradiction
  next c advanced =>
    obtain ⟨pc',queue'⟩ := advance_pops advanced pc queue
    simp only [pc,queue] at moved
    have ctxs := popped_ctxs moved
    refine ⟨?_,?_,?_⟩
    · rw [ctxs]
      simp only [State.context,Function.update_self,pc']
    · intro y member
      rw [ctxs] at member
      simp only [State.context,Function.update_apply] at member
      split at member
      next =>
        rw [queue'] at member
        have distinct := counted.nodup lawful once x
        rw [queue] at distinct
        exact (List.nodup_cons.mp distinct).1 member
      next other => exact other (counted.one_queue lawful member front)
    · unfold State.popped at moved
      split at moved
      next => contradiction
      next place =>
        cases moved
        exact .inl ⟨place,Function.update_self ..⟩
      next i place =>
        obtain ⟨_,_,rfl⟩ := Option.map_eq_some_iff.mp moved
        exact .inr ⟨i,place,Function.update_self ..⟩

end TinyCoro.Program
