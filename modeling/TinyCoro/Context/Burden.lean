import TinyCoro.Context.Completion

/-! How much the worker of a context can still do without new work. Each step of its
own, of the kernel and of its coroutines towards their suspension makes it less, and
a push or a write of the eventfd makes it more by a bounded amount. -/
namespace TinyCoro.Context

variable {Coro : Type}

/-- A coroutine only goes on to its suspension, and the kernel to the completions. -/
def settles : Action Coro → Bool
  | .step | .accept _ | .coAwait _ | .suspend | .post _ _ _ _ => true
  | _ => false

/-- The steps from here to the read of the eventfd, or to the next task in the queue. -/
def Pc.rank (empty : Bool) : Pc Coro → Nat
  | .returned | .aborted _ _ => 0
  | .waitEventfd => 1
  | .ioSubmitted => 2
  | .doIoSubmit => 3
  | .exec (_+1) => 4
  | .stopCb => 6
  | .notReady => 7
  | .idleWaitWork => 8
  | .stopNotRequested | .ready => 9
  | .emptyWaitWork => 10
  | .stopRequested => 11
  | .exec 0 => 12
  | .running _ _ => 13
  | .processWork => if empty then 13 else 5
  | .subtract _ => 14
  | .cqAdvance _ => 15
  | .handleCqe _ _ => 16
  | .peekBatchCqe => 17
  -- a write of the eventfd is still to come
  | .wakeSelf _ _ => 31
  | .wakeUp _ _ => 34

def Pc.taken : Pc Coro → Nat
  | .handleCqe i cnt | .wakeUp i cnt | .aborted i cnt => min i cnt
  | .cqAdvance cnt => cnt
  | _ => 0

/-- A read of the eventfd sends the worker around the loop once. -/
def awaited (efd : Nat) : Nat := if efd = 0 then 0 else 17

private theorem awaited_le (efd : Nat) : awaited efd ≤ 17 := by
  unfold awaited
  split
  next => exact Nat.zero_le 17
  next => exact Nat.le_refl 17

def State.burden (s : State Coro) : Nat :=
  awaited s.efd + 10 * s.taskQueue.length + 47 * (s.sq.length + s.inKernel.length) +
    29 * (s.cq.length - s.pc.taken) + s.pc.rank s.taskQueue.isEmpty

section
variable {s s' : State Coro}

private theorem rank_of_push (pc : Pc Coro) (empty : Bool) : pc.rank false ≤ pc.rank empty := by
  cases pc with
  | processWork => cases empty <;> simp [Pc.rank]
  | exec left => cases left <;> exact Nat.le_refl _
  | _ => exact Nat.le_refl _

theorem burden_push (handle : Coro) : { s with taskQueue := s.taskQueue ++ [handle] }.burden ≤ s.burden + 10 := by
  have rank := rank_of_push s.pc s.taskQueue.isEmpty
  have filled : (s.taskQueue ++ [handle]).isEmpty = false := by simp
  simp only [State.burden,List.length_append,List.length_singleton,filled]
  omega

theorem burden_writeEventfd (num : Nat) : (s.writeEventfd num).burden ≤ s.burden + 17 := by
  have added := awaited_le (s.efd + num)
  simp only [State.burden,State.writeEventfd]
  omega

private theorem burden_goto {pc : Pc Coro} (taken : pc.taken = s.pc.taken)
    (less : pc.rank s.taskQueue.isEmpty < s.pc.rank s.taskQueue.isEmpty) :
    { s with pc := pc }.burden < s.burden := by
  simp only [State.burden,taken]
  omega

theorem burden_callback (pc : s.pc = .stopCb) : { s with pc := .doIoSubmit }.burden + 3 = s.burden := by
  simp [State.burden,pc,Pc.rank,Pc.taken]

theorem burden_clear (left : s.pc = .returned) : { s with taskQueue := [] }.burden ≤ s.burden := by
  simp only [State.burden,left,Pc.taken,Pc.rank,List.length_nil]
  omega

end

variable [DecidableEq Coro] {s s' : State Coro}

private theorem burden_resume (handle : Coro) (rest : List Coro) (pc : Pc Coro) :
    { s.resume handle with taskQueue := rest, pc := pc }.burden = { s with taskQueue := rest, pc := pc }.burden := by
  unfold State.resume
  split <;> rfl

theorem burden_advance (moved : advance s = some s') : s'.burden < s.burden := by
  cases pc : s.pc with
  | running | returned | aborted => simp [advance,pc] at moved
  | processWork =>
    simp only [advance,pc,Option.some.injEq] at moved
    subst moved
    cases queue : s.taskQueue with
    | nil => simp [State.burden,pc,queue,Pc.rank,Pc.taken]
    | cons => simp [State.burden,pc,queue,Pc.rank,Pc.taken]
  | exec left =>
    cases left with
    | zero =>
      simp only [advance,pc,Option.some.injEq] at moved
      subst moved
      simp [State.burden,pc,Pc.rank,Pc.taken]
    | succ left =>
      simp only [advance,pc] at moved
      split at moved
      next => contradiction
      next handle rest queue =>
        cases moved
        rw [burden_resume]
        simp only [State.burden,pc,queue,Pc.rank,Pc.taken,List.length_cons]
        omega
  | wakeSelf left handle | wakeUp i cnt =>
    simp only [advance,pc,Option.ite_none_right_eq_some,Option.some.injEq] at moved
    obtain ⟨_,rfl⟩ := moved
    have added := awaited_le (s.efd + taskFlag)
    simp only [State.burden,State.writeEventfd,pc,Pc.rank,Pc.taken]
    omega
  | ready =>
    simp only [advance,pc,Option.some.injEq] at moved
    subst moved
    cases queue : s.taskQueue with
    | nil => simp [State.burden,pc,queue,Pc.rank,Pc.taken]
    | cons => simp [State.burden,pc,queue,Pc.rank,Pc.taken]
  | doIoSubmit =>
    simp only [advance,pc,Option.ite_none_left_eq_some,Option.some.injEq] at moved
    obtain ⟨_,rfl⟩ := moved
    apply burden_goto <;> simp [pc,Pc.rank,Pc.taken]
  | stopCb | ioSubmitted =>
    simp only [advance,pc,Option.some.injEq] at moved
    subst moved
    simp [State.burden,pc,Pc.rank,Pc.taken]
  | waitEventfd =>
    simp only [advance,pc,Option.ite_none_left_eq_some,Option.some.injEq] at moved
    obtain ⟨written,rfl⟩ := moved
    have before : awaited s.efd = 17 := if_neg written
    have after : awaited 0 = 0 := rfl
    cases woken : wakeByCqe s.efd with
    | true =>
      simp only [State.burden,pc,before,after,Pc.rank,Pc.taken,if_true]
      omega
    | false =>
      simp only [State.burden,pc,before,after,Pc.rank,Pc.taken,Bool.false_eq_true,if_false]
      split <;> omega
  | handleCqe i cnt =>
    simp only [advance,pc] at moved
    split at moved
    next more =>
      split at moved
      next => contradiction
      next cqe here =>
        have inside : i < s.cq.length := (List.getElem?_eq_some_iff.mp here).1
        split at moved
        next =>
          cases moved
          simp only [State.burden,State.storeResult,pc,Pc.rank,Pc.taken]
          omega
        next =>
          cases moved
          simp only [State.burden,State.handleCqe,State.storeResult,pc,Pc.rank,Pc.taken,List.length_append,List.length_singleton]
          omega
    next last =>
      cases moved
      simp only [State.burden,pc,Pc.rank,Pc.taken]
      omega
  | cqAdvance cnt =>
    simp only [advance,pc,Option.some.injEq] at moved
    subst moved
    simp only [State.burden,pc,Pc.rank,Pc.taken,List.length_drop]
    omega
  | subtract cnt =>
    simp only [advance,pc,Option.some.injEq] at moved
    subst moved
    cases queue : s.taskQueue.isEmpty <;> simp [State.burden,pc,queue,Pc.rank,Pc.taken]
  | peekBatchCqe =>
    simp only [advance,pc,Option.some.injEq] at moved
    subst moved
    cases queue : s.taskQueue.isEmpty <;> by_cases some : min s.cq.length s.numIoRunning.toNat ≠ 0 <;>
      simp [State.burden,pc,queue,some,Pc.rank,Pc.taken]
  | stopRequested | emptyWaitWork | stopNotRequested | idleWaitWork | notReady =>
    simp only [advance,pc,Option.some.injEq] at moved
    subst moved
    apply burden_goto
    all_goals rw [pc]
    all_goals split
    all_goals simp [Pc.rank,Pc.taken]

private theorem burden_accept {count : Nat} (moved : step s (.accept count) = some s') : s'.burden < s.burden := by
  simp only [step] at moved
  split at moved
  next pc =>
    split at moved
    next allowed =>
      cases moved
      have enough := allowed.2
      simp only [State.burden,pc,Pc.rank,Pc.taken,List.length_append,List.length_take,List.length_drop]
      omega
    next => contradiction
  next => contradiction

theorem burden_suspend (moved : step s .suspend = some s') : s'.burden < s.burden := by
  simp only [step] at moved
  split at moved
  next left handle pc =>
    cases moved
    cases left <;> simp [State.burden,pc,Pc.rank,Pc.taken]
  next => contradiction

private theorem burden_coAwait {ptr : InfoPtr} (moved : step s (.coAwait ptr) = some s') : s'.burden < s.burden := by
  simp only [step] at moved
  split at moved
  next left handle pc =>
    split at moved
    next =>
      cases moved
      cases left <;> simp [State.burden,pc,Pc.rank,Pc.taken]
    next => contradiction
  next => contradiction

private theorem burden_post {before after : List Entry} {entry : Entry} {res : Int}
    (moved : step s (.post before after entry res) = some s') : s'.burden < s.burden := by
  simp only [step,Option.ite_none_right_eq_some,Option.some.injEq] at moved
  obtain ⟨accepted,rfl⟩ := moved
  have added := awaited_le (s.efd + 1)
  simp only [State.burden,State.writeEventfd,accepted,List.length_append,List.length_cons,List.length_nil]
  omega

theorem burden_work {a : Action Coro} (kind : settles a = true) (moved : step s a = some s') : s'.burden < s.burden := by
  cases a with
  | step => exact burden_advance moved
  | accept => exact burden_accept moved
  | coAwait => exact burden_coAwait moved
  | suspend => exact burden_suspend moved
  | post => exact burden_post moved
  | _ => contradiction

end TinyCoro.Context
