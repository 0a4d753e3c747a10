import TinyCoro.Context.Worker

/-! The io counters of an engine against the entries in its rings. -/
namespace TinyCoro.Context
open Library

variable {Coro : Type} [DecidableEq Coro]

/-- The size of a batch that is still in the completion ring. -/
def Pc.batch : Pc Coro → Nat
  | .handleCqe _ cnt | .wakeUp _ cnt | .cqAdvance cnt | .aborted _ cnt => cnt
  | _ => 0

/-- The size of a batch that is still in `m_num_io_running` only. -/
def Pc.reaped : Pc Coro → Nat
  | .subtract cnt => cnt
  | _ => 0

structure Counters (s : State Coro) : Prop where
  wait : 0 ≤ s.numIoWaitSubmit
  running : 0 ≤ s.numIoRunning
  total : (s.inFlight + s.pc.reaped : Int) = s.numIoWaitSubmit + s.numIoRunning
  queued : s.pc ≠ .ioSubmitted → s.numIoWaitSubmit ≤ s.sq.length
  batch : s.pc.batch ≤ s.cq.length

omit [DecidableEq Coro] in
theorem fresh_counters (s : State Coro) (fresh : Fresh s) : Counters s := by
  obtain ⟨_,_,_,_,_,wait,running,sq,inKernel,cq,_,_,pc,_⟩ := fresh
  constructor <;> simp [*,State.inFlight,Pc.reaped,Pc.batch]

omit [DecidableEq Coro] in
/-- No more completions are in the ring than `m_num_io_running` counts. -/
theorem Counters.peek {s : State Coro} (h : Counters s) (pc : s.pc = .peekBatchCqe) :
    s.cq.length ≤ s.numIoRunning.toNat := by
  have total := h.total
  have queued := h.queued (by simp [pc])
  simp only [State.inFlight,pc,Pc.reaped] at total
  omega

omit [DecidableEq Coro] in
theorem Counters.subtract {s : State Coro} (h : Counters s) {cnt : Nat} (pc : s.pc = .subtract cnt) :
    cnt ≤ s.numIoRunning := by
  have total := h.total
  have queued := h.queued (by simp [pc])
  simp only [State.inFlight,pc,Pc.reaped] at total
  omega

section
variable (s : State Coro) (handle : Coro)

@[simp] theorem resume_sq : (s.resume handle).sq = s.sq := by unfold State.resume; split <;> rfl
@[simp] theorem resume_inKernel : (s.resume handle).inKernel = s.inKernel := by unfold State.resume; split <;> rfl
@[simp] theorem resume_cq : (s.resume handle).cq = s.cq := by unfold State.resume; split <;> rfl
@[simp] theorem resume_numIoWaitSubmit : (s.resume handle).numIoWaitSubmit = s.numIoWaitSubmit := by
  unfold State.resume; split <;> rfl
@[simp] theorem resume_numIoRunning : (s.resume handle).numIoRunning = s.numIoRunning := by
  unfold State.resume; split <;> rfl
@[simp] theorem resume_numWaitTask : (s.resume handle).numWaitTask = s.numWaitTask := by
  unfold State.resume; split <;> rfl

end

omit [DecidableEq Coro] in
theorem Counters.keep {s s' : State Coro} (h : Counters s) (sq : s'.sq = s.sq) (inKernel : s'.inKernel = s.inKernel)
    (cq : s'.cq = s.cq) (wait : s'.numIoWaitSubmit = s.numIoWaitSubmit) (running : s'.numIoRunning = s.numIoRunning)
    (before : s.pc.reaped = 0) (submitted : s.pc ≠ .ioSubmitted) (after : s'.pc.reaped = 0)
    (batch : s'.pc.batch ≤ s.cq.length) : Counters s' := by
  have total := h.total
  have queued := h.queued submitted
  refine ⟨wait ▸ h.wait,running ▸ h.running,?_,?_,cq ▸ batch⟩
  · rw [after]
    rw [before] at total
    simpa only [State.inFlight,sq,inKernel,cq,wait,running] using total
  · intro _
    rw [wait,sq]
    exact queued

theorem Counters.advance {s s' : State Coro} (h : Counters s) (moved : advance s = some s') : Counters s' := by
  have total := h.total
  have batch := h.batch
  unfold Context.advance at moved
  split at moved
  case h_14 pc =>
    cases moved
    refine ⟨Int.le_refl 0,?_,?_,?_,?_⟩
    · have := h.wait; have := h.running; simp; omega
    · simp only [State.inFlight,pc,Pc.reaped] at total ⊢; omega
    · intro _; simp
    · simp [Pc.batch]
  case h_16 pc =>
    have peek := h.peek pc
    simp only [Option.some.injEq] at moved
    subst moved
    apply h.keep <;> simp only [pc]
    · rfl
    · simp
    · split <;> rfl
    · split
      next => exact Nat.min_le_left ..
      next => exact Nat.zero_le _
  case h_17 i cnt pc =>
    split at moved
    next =>
      split at moved
      next => contradiction
      next cqe here =>
        split at moved
        all_goals cases moved
        all_goals apply h.keep <;> simp_all [Pc.reaped,Pc.batch,State.handleCqe,State.storeResult]
    next => cases moved; apply h.keep <;> simp_all [Pc.reaped,Pc.batch]
  case h_19 cnt pc =>
    cases moved
    have queued := h.queued (by simp [pc])
    refine ⟨h.wait,h.running,?_,fun _ => queued,by simp [Pc.batch]⟩
    simp only [State.inFlight,pc,Pc.reaped,Pc.batch,List.length_drop] at total batch ⊢
    omega
  case h_20 cnt pc =>
    cases moved
    have enough := h.subtract pc
    have queued := h.queued (by simp [pc])
    refine ⟨h.wait,by simp; omega,?_,fun _ => queued,by simp [Pc.batch]⟩
    simp only [State.inFlight,pc,Pc.reaped] at total ⊢
    omega
  case h_3 left pc =>
    split at moved
    next => contradiction
    next => cases moved; apply h.keep <;> simp [pc,Pc.reaped,Pc.batch]
  case h_5 | h_18 =>
    next pc =>
      split at moved
      next => cases moved; apply h.keep <;> simp_all [Pc.reaped,Pc.batch,State.writeEventfd]
      next => contradiction
  case h_13 pc =>
    split at moved
    next => contradiction
    next => cases moved; apply h.keep <;> simp [pc,Pc.reaped,Pc.batch]
  case h_15 pc =>
    split at moved
    next => contradiction
    next =>
      cases moved
      refine h.keep rfl rfl rfl rfl rfl (by simp [pc,Pc.reaped]) (by simp [pc]) ?_ ?_
      all_goals dsimp only; split <;> simp [Pc.reaped,Pc.batch]
  case h_1 | h_2 | h_12 =>
    next pc => cases moved; apply h.keep <;> simp [pc,Pc.reaped,Pc.batch]
  case h_4 | h_21 | h_22 => contradiction
  all_goals
    next pc =>
      cases moved
      refine h.keep rfl rfl rfl rfl rfl (by simp [pc,Pc.reaped]) (by simp [pc]) ?_ ?_
      all_goals dsimp only; split <;> simp [Pc.reaped,Pc.batch]

theorem Counters.accept {s s' : State Coro} {count : Nat} (h : Counters s)
    (moved : step s (.accept count) = some s') : Counters s' := by
  have total := h.total
  simp only [step] at moved
  split at moved
  next pc =>
    split at moved
    next within =>
      cases moved
      refine ⟨h.wait,h.running,?_,by simp,by simp [Pc.batch]⟩
      simp only [State.inFlight,pc,Pc.reaped,List.length_append,List.length_take,List.length_drop] at total ⊢
      omega
    next => contradiction
  next => contradiction

theorem Counters.io {s s' : State Coro} {type : IoType} {data : Int} {ptr : InfoPtr} (h : Counters s)
    (moved : step s (.io type data ptr) = some s') : Counters s' := by
  have total := h.total
  have wait := h.wait
  simp only [step] at moved
  split at moved
  next left handle pc =>
    have queued := h.queued (by simp [pc])
    split at moved
    next =>
      cases moved
      refine ⟨by simp; omega,h.running,?_,fun _ => ?_,by simp [pc,Pc.batch]⟩
      · simp only [State.inFlight,pc,Pc.reaped,List.length_append,List.length_singleton] at total ⊢
        omega
      · simp only [List.length_append,List.length_singleton]
        omega
    next => contradiction
  next => contradiction

theorem Counters.post {s s' : State Coro} {before after : List Entry} {entry : Entry} {res : Int} (h : Counters s)
    (moved : step s (.post before after entry res) = some s') : Counters s' := by
  have total := h.total
  have batch := h.batch
  simp only [step] at moved
  split at moved
  next accepted =>
    cases moved
    refine ⟨h.wait,h.running,?_,h.queued,?_⟩
    · simp only [State.inFlight,State.writeEventfd,accepted,List.length_append,List.length_cons,
        List.length_nil] at total ⊢
      omega
    · simp only [List.length_append,List.length_singleton,State.writeEventfd]
      omega
  next => contradiction

theorem Counters.step {s s' : State Coro} {a : Action Coro} (h : Counters s) (moved : step s a = some s') :
    Counters s' := by
  cases a with
  | step => exact h.advance moved
  | accept count => exact h.accept moved
  | io type data ptr => exact h.io moved
  | post before after entry res => exact h.post moved
  | coAwait ptr =>
    simp only [Context.step] at moved
    split at moved
    next pc =>
      split at moved
      next => cases moved; apply h.keep <;> simp [pc,Pc.reaped,Pc.batch]
      next => contradiction
    next => contradiction
  | submitSelf t =>
    simp only [Context.step] at moved
    split at moved
    next pc => cases moved; apply h.keep <;> simp [pc,Pc.reaped,Pc.batch]
    next => contradiction
  | suspend =>
    simp only [Context.step] at moved
    split at moved
    next pc => cases moved; apply h.keep <;> simp [pc,Pc.reaped,Pc.batch]
    next => contradiction
  | registerWait cnt => cases moved; exact { h with }
  | requestStop => cases moved; exact { h with }
  | push t => cases moved; exact { h with }
  | wake | stopWake =>
    simp only [Context.step] at moved
    split at moved
    next => cases moved; exact { h with }
    next => contradiction

end TinyCoro.Context
