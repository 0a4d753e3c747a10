import TinyCoro.Context.Counters

/-! Wake-ups at the eventfd. A task beyond the snapshot of `process_work` and a
completion beyond the batch being reaped always have a write that the next
`wait_eventfd` will see, or a thread about to make it. -/
namespace TinyCoro.Context
open Library

variable {Coro : Type} [DecidableEq Coro]

/-- From the read of `was_size` to the next read of the eventfd: the tasks of
the snapshot that are still to run. -/
def Pc.snapshot : Pc Coro → Option Nat
  | .exec left | .running left _ | .wakeSelf left _ => some left
  | .stopRequested | .emptyWaitWork | .ready | .stopNotRequested | .idleWaitWork | .notReady | .stopCb
  | .doIoSubmit | .ioSubmitted | .waitEventfd => some 0
  | _ => none

/-- Between the push and the `wake_up` of the worker's own `submit_task`. -/
def Pc.owesWake : Pc Coro → Bool
  | .wakeSelf _ _ | .wakeUp _ _ => true
  | _ => false

/-- The eventfd's low field counts the writes of completions and stops since the
last read without reaching 2^24. -/
def FewWrites (s : State Coro) : Action Coro → Prop
  | .post _ _ _ _ | .stopWake => cqeBits s.efd + 1 < 2^24
  | _ => True

structure Wakes (s : State Coro) : Prop where
  tasks : ∀ left, s.pc.snapshot = some left → left < s.taskQueue.length →
    0 < s.efd ∨ 0 < s.waking ∨ s.pc.owesWake = true
  completions : s.pc.batch < s.cq.length → 0 < cqeBits s.efd ∨ s.pc = .peekBatchCqe

omit [DecidableEq Coro] in
private theorem fresh_wakes (s : State Coro) (fresh : Fresh s) : Wakes s := by
  constructor <;> simp [fresh.cq,fresh.pc,Pc.snapshot]

private theorem cqeBits_taskFlag (value : Nat) : cqeBits (value + taskFlag) = cqeBits value := by
  simp only [cqeBits_eq,taskFlag]
  omega

private theorem cqeBits_one (value : Nat) (few : cqeBits value + 1 < 2^24) : 0 < cqeBits (value + 1) := by
  simp only [cqeBits_eq] at *
  omega

@[simp] theorem resume_efd (s : State Coro) (handle : Coro) : (s.resume handle).efd = s.efd := by
  unfold State.resume; split <;> rfl

@[simp] theorem resume_waking (s : State Coro) (handle : Coro) : (s.resume handle).waking = s.waking := by
  unfold State.resume; split <;> rfl

omit [DecidableEq Coro] in
theorem Wakes.goto {s s' : State Coro} (h : Wakes s) (queue : s'.taskQueue = s.taskQueue) (efd : s'.efd = s.efd)
    (waking : s'.waking = s.waking) (cq : s'.cq = s.cq) (owes : s.pc.owesWake = false)
    (peeks : s.pc ≠ .peekBatchCqe) (snapshot : ∀ left, s'.pc.snapshot = some left →
      s.pc.snapshot = some left ∨ s.taskQueue.length ≤ left) (batch : s.pc.batch ≤ s'.pc.batch) : Wakes s' := by
  constructor
  · intro left after more
    rw [queue] at more
    rcases snapshot left after with before | enough
    · rw [efd,waking]
      rcases h.tasks left before more with written | pending | own
      · exact .inl written
      · exact .inr (.inl pending)
      · simp [owes] at own
    · omega
  · intro more
    rw [cq] at more
    rw [efd]
    exact .inl ((h.completions (by omega)).resolve_right peeks)

theorem Wakes.advance {s s' : State Coro} (h : Wakes s) (counters : Counters s) (moved : advance s = some s') :
    Wakes s' := by
  have tasks := h.tasks
  have completions := h.completions
  unfold Context.advance at moved
  split at moved
  case h_3 left pc =>
    split at moved
    next => contradiction
    next handle rest queue =>
      cases moved
      simp only [pc,queue,Pc.snapshot,Pc.batch] at tasks completions
      constructor
      · intro left' same more
        cases same
        simpa [Pc.owesWake] using tasks _ rfl (by simpa using more)
      · simpa [Pc.batch] using completions
  case h_5 left handle pc =>
    split at moved
    next =>
      cases moved
      simp only [pc,Pc.batch] at completions
      refine ⟨fun _ _ _ => .inl (by simp [State.writeEventfd,taskFlag]),fun more => .inl ?_⟩
      simp only [State.writeEventfd,cqeBits_taskFlag]
      simpa using completions more
    next => contradiction
  case h_15 pc =>
    split at moved
    next => contradiction
    next nonzero =>
      cases moved
      simp only [pc,Pc.batch] at completions
      refine ⟨?_,?_⟩
      · intro left same
        dsimp only at same
        split at same <;> simp [Pc.snapshot] at same
      · intro more
        right
        dsimp only at more ⊢
        have bits := completions (by split at more <;> simpa [Pc.batch] using more)
        simp [wakeByCqe] at bits ⊢
        omega
  case h_16 pc =>
    have peek := counters.peek pc
    simp only [Option.some.injEq] at moved
    subst moved
    refine ⟨?_,?_⟩
    · intro left same
      dsimp only at same
      split at same <;> simp [Pc.snapshot] at same
    · intro more
      dsimp only at more
      split at more <;> simp [Pc.batch] at more <;> omega
  case h_1 pc =>
    cases moved
    apply h.goto <;> simp [pc,Pc.owesWake,Pc.snapshot,Pc.batch]
  case h_17 i cnt pc =>
    split at moved
    next =>
      split at moved
      next => contradiction
      next cqe here =>
        simp only [pc,Pc.batch] at completions
        split at moved
        all_goals cases moved
        all_goals
          exact ⟨by simp [Pc.snapshot],by simpa [State.handleCqe,State.storeResult,Pc.batch] using completions⟩
    next => cases moved; apply h.goto <;> simp [pc,Pc.owesWake,Pc.snapshot,Pc.batch]
  case h_18 i cnt pc =>
    split at moved
    next =>
      cases moved
      simp only [pc,Pc.batch] at completions
      refine ⟨by simp [Pc.snapshot],fun more => .inl ?_⟩
      simp only [State.writeEventfd,cqeBits_taskFlag]
      simpa using completions more
    next => contradiction
  case h_19 cnt pc =>
    cases moved
    simp only [pc,Pc.batch] at completions
    refine ⟨by simp [Pc.snapshot],fun more => .inl ?_⟩
    simp only [Pc.batch,List.length_drop] at more
    simpa using completions (by omega)
  case h_13 pc =>
    split at moved
    next => contradiction
    next => cases moved; apply h.goto <;> simp [pc,Pc.owesWake,Pc.snapshot,Pc.batch]
  case h_2 | h_12 | h_14 | h_20 =>
    next pc => cases moved; apply h.goto <;> simp [pc,Pc.owesWake,Pc.snapshot,Pc.batch]
  case h_4 | h_21 | h_22 => contradiction
  all_goals
    next pc =>
      cases moved
      apply h.goto <;> simp only [pc] <;> first | rfl | simp | (split <;> simp [Pc.snapshot,Pc.batch])

theorem Wakes.step {s s' : State Coro} {a : Action Coro} (h : Wakes s) (counters : Counters s) (few : FewWrites s a)
    (moved : step s a = some s') : Wakes s' := by
  have tasks := h.tasks
  have completions := h.completions
  cases a with
  | step => exact h.advance counters moved
  | accept count =>
    simp only [Context.step] at moved
    split at moved
    next pc =>
      split at moved
      next => cases moved; apply h.goto <;> simp [pc,Pc.owesWake,Pc.snapshot,Pc.batch]
      next => contradiction
    next => contradiction
  | submitSelf t =>
    simp only [Context.step] at moved
    split at moved
    next left handle pc =>
      cases moved
      simp only [pc,Pc.batch] at completions
      exact ⟨by simp [Pc.owesWake],by simpa [Pc.batch] using completions⟩
    next => contradiction
  | io type data ptr | coAwait ptr =>
    simp only [Context.step] at moved
    split at moved
    next left handle pc =>
      split at moved
      next => cases moved; apply h.goto <;> simp [pc,Pc.owesWake,Pc.snapshot,Pc.batch]
      next => contradiction
    next => contradiction
  | suspend =>
    simp only [Context.step] at moved
    split at moved
    next pc => cases moved; apply h.goto <;> simp [pc,Pc.owesWake,Pc.snapshot,Pc.batch]
    next => contradiction
  | registerWait cnt => cases moved; exact ⟨tasks,completions⟩
  | requestStop => cases moved; exact ⟨tasks,completions⟩
  | push t => cases moved; exact ⟨fun _ _ _ => .inr (.inl (by simp)),completions⟩
  | wake =>
    simp only [Context.step] at moved
    split at moved
    next =>
      cases moved
      refine ⟨fun _ _ _ => .inl (by simp [State.writeEventfd,taskFlag]),?_⟩
      simpa only [State.writeEventfd,cqeBits_taskFlag] using completions
    next => contradiction
  | stopWake =>
    simp only [Context.step] at moved
    split at moved
    next =>
      cases moved
      exact ⟨fun _ _ _ => .inl (by simp [State.writeEventfd]),fun _ => .inl (cqeBits_one _ few)⟩
    next => contradiction
  | post before after entry res =>
    simp only [Context.step] at moved
    split at moved
    next =>
      cases moved
      exact ⟨fun _ _ _ => .inl (by simp [State.writeEventfd]),fun _ => .inl (cqeBits_one _ few)⟩
    next => contradiction

theorem within_wakes (s : State Coro) (within : (machine Coro).Within FewWrites s) : Counters s ∧ Wakes s := by
  refine @Machine.Within.invariant _ _ _ _ (fun s => Counters s ∧ Wakes s) ?_ ?_ s within
  · exact fun s fresh => ⟨fresh_counters s fresh,fresh_wakes s fresh⟩
  · exact fun _ _ _ before few moved => ⟨before.1.step moved,before.2.step before.1 few moved⟩

/-- A worker blocked at the eventfd, with no thread between the push and the
`wake_up` of `submit_task`, has an empty task queue and no completion to reap. -/
theorem blocked_has_nothing (s : State Coro) (within : (machine Coro).Within FewWrites s)
    (pc : s.pc = .waitEventfd) (zero : s.efd = 0) (quiet : s.waking = 0) : s.taskQueue = [] ∧ s.cq = [] := by
  obtain ⟨_,wakes⟩ := within_wakes s within
  have tasks := wakes.tasks 0 (by simp [pc,Pc.snapshot])
  have completions := wakes.completions
  simp only [pc,zero,quiet,Pc.owesWake,Pc.batch,cqeBits_eq,List.length_pos_iff] at tasks completions
  constructor
  · simpa using tasks
  · simpa using completions

instance (s : State Coro) : (a : Action Coro) → Decidable (FewWrites s a)
  | .post _ _ _ _ | .stopWake => inferInstanceAs (Decidable (cqeBits s.efd + 1 < 2^24))
  | .step | .accept _ | .submitSelf _ | .io _ _ _ | .coAwait _ | .suspend | .registerWait _ | .push _ | .wake | .requestStop =>
    inferInstanceAs (Decidable True)

def initial : State Unit := newContext []

theorem initial_fresh : Fresh initial := newContext_fresh []

/-- A submitted coroutine awaits a noop, the read of the eventfd takes only the
bits of its submission, and the worker blocks again before the completion. -/
def blockedOnNoop : List (Action Unit) :=
  [.push (),.wake,.step,.step,.io .nop 0 0,.coAwait 0,.step,.step,.step,.step,.accept 1,.step,.step,.step,.step,.step,.step,.step,.step]

theorem blocked_on_noop_has_nothing : ∃ s : State Unit,
    (machine Unit).guardedRun FewWrites initial blockedOnNoop = some s ∧ s.inKernel = [⟨0,0⟩] ∧
    s.taskQueue = [] ∧ s.cq = [] := by
  have ran : ((machine Unit).guardedRun FewWrites initial blockedOnNoop).map
      (fun s => (s.inKernel,decide (s.efd = 0),s.waking,match s.pc with | .waitEventfd => true | _ => false)) =
      some ([⟨0,0⟩],true,0,true) := by decide
  obtain ⟨s,reached,shape⟩ := Option.map_eq_some_iff.mp ran
  simp only [Prod.mk.injEq,decide_eq_true_eq] at shape
  obtain ⟨accepted,zero,quiet,blocked⟩ := shape
  have within := Machine.guardedRun_within _ _ _ _ (.start initial_fresh) reached
  refine ⟨s,reached,accepted,blocked_has_nothing s within ?_ zero quiet⟩
  split at blocked
  next pc => exact pc
  next => contradiction

end TinyCoro.Context
