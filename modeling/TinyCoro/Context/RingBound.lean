import TinyCoro.Context.Sized
import TinyCoro.Context.Wakeup

/-! The submission ring never runs out of entries. A resumption makes one entry at
most, since the awaiter suspends; the ring is empty wherever a snapshot of the task
queue is taken. -/
namespace TinyCoro.Context
open Library

/-- How many resumptions may still make an entry before the ring is next emptied. -/
def Pc.toRun {Coro : Type} : Pc Coro → Nat
  | .exec left => left
  | .running left _ | .wakeSelf left _ => left + 1
  | .stopRequested | .emptyWaitWork | .stopNotRequested | .idleWaitWork | .notReady | .stopCb | .doIoSubmit | .returned => 0
  | _ => kQueCap

namespace Sized
variable {Coro : Type}

structure RingBound (w : Context.State Coro) : Prop where
  queue : w.taskQueue.length ≤ kQueCap
  counted : w.pc ≠ .ioSubmitted → w.numIoWaitSubmit = w.sq.length
  room : w.sq.length + w.pc.toRun ≤ kQueCap

variable {w w' : Context.State Coro}

theorem RingBound.empty (bound : RingBound w) (pc : w.pc ≠ .ioSubmitted) (none : w.emptyIo = true) : w.sq.length = 0 := by
  have counted := bound.counted pc
  have io := of_decide_eq_true none
  omega

theorem RingBound.keep (bound : RingBound w) (queue : w'.taskQueue.length ≤ kQueCap) (sq : w'.sq = w.sq)
    (wait : w'.numIoWaitSubmit = w.numIoWaitSubmit) (before : w.pc ≠ .ioSubmitted)
    (toRun : w'.pc.toRun ≤ w.pc.toRun) : RingBound w' := by
  refine ⟨queue,fun _ => ?_,?_⟩
  · rw [wait,sq]
    exact bound.counted before
  · rw [sq]
    exact Nat.le_trans (Nat.add_le_add_left toRun _) bound.room

private theorem RingBound.refill (bound : RingBound w) (empty : w.sq.length = 0) (queue : w'.taskQueue = w.taskQueue) (sq : w'.sq = w.sq)
    (wait : w'.numIoWaitSubmit = w.numIoWaitSubmit) (before : w.pc ≠ .ioSubmitted)
    (toRun : w'.pc.toRun ≤ kQueCap) : RingBound w' := by
  refine ⟨queue ▸ bound.queue,fun _ => ?_,?_⟩
  · rw [wait,sq]
    exact bound.counted before
  · rw [sq,empty,Nat.zero_add]
    exact toRun

private theorem resume_fields (w : Context.State Coro) [DecidableEq Coro] (handle : Coro) : (w.resume handle).sq = w.sq ∧
    (w.resume handle).numIoWaitSubmit = w.numIoWaitSubmit := by
  unfold State.resume
  split
  next => exact ⟨rfl,rfl⟩
  next => exact ⟨rfl,rfl⟩

variable [DecidableEq Coro]

theorem RingBound.advance (bound : RingBound w) (fitting : fits w .step = true) (moved : Context.advance w = some w') :
    RingBound w' := by
  have queue := bound.queue
  have room := bound.room
  cases pc : w.pc with
  | processWork =>
    simp only [Context.advance,pc,Option.some.injEq] at moved
    subst moved
    exact bound.keep queue rfl rfl (by simp [pc]) (by rw [pc]; exact queue)
  | exec left =>
    cases left with
    | zero =>
      simp only [Context.advance,pc,Option.some.injEq] at moved
      subst moved
      exact bound.keep queue rfl rfl (by simp [pc]) (by simp [Pc.toRun])
    | succ left =>
      cases tasks : w.taskQueue with
      | nil => simp [Context.advance,pc,tasks] at moved
      | cons handle rest =>
        simp only [Context.advance,pc,tasks,Option.some.injEq] at moved
        subst moved
        rw [tasks,List.length_cons] at queue
        exact bound.keep (by dsimp only; omega) (resume_fields w handle).1 (resume_fields w handle).2 (by simp [pc])
          (by simp [pc,Pc.toRun])
  | running left handle => simp [Context.advance,pc] at moved
  | wakeSelf left handle =>
    simp only [Context.advance,pc,Option.ite_none_right_eq_some,Option.some.injEq] at moved
    rw [← moved.2]
    exact bound.keep queue rfl rfl (by simp [pc]) (by simp [pc,Pc.toRun])
  | emptyWaitWork =>
    simp only [Context.advance,pc,Option.some.injEq] at moved
    subst moved
    by_cases idle : w.numWaitTask = 0 ∧ w.emptyIo = true
    · exact bound.refill (bound.empty (by simp [pc]) idle.2) rfl rfl rfl (by simp [pc]) (by simp [if_pos idle,Pc.toRun])
    · exact bound.keep queue rfl rfl (by simp [pc]) (by simp [if_neg idle,Pc.toRun])
  | ready =>
    simp only [Context.advance,pc,Option.some.injEq] at moved
    subst moved
    refine bound.keep queue rfl rfl (by simp [pc]) ?_
    dsimp only
    rw [pc]
    split <;> simp [Pc.toRun]
  | doIoSubmit =>
    simp only [Context.advance,pc,Option.ite_none_left_eq_some,Option.some.injEq] at moved
    have counted := bound.counted (by simp [pc])
    rw [← moved.2]
    exact bound.refill (by omega) rfl rfl rfl (by simp [pc]) (by simp [Pc.toRun])
  | ioSubmitted =>
    simp only [Context.advance,pc,Option.some.injEq] at moved
    subst moved
    rw [pc] at room
    simp only [Pc.toRun] at room
    exact ⟨queue,fun _ => by dsimp only; omega,by simp only [Pc.toRun]; omega⟩
  | waitEventfd =>
    simp only [Context.advance,pc,Option.ite_none_left_eq_some,Option.some.injEq] at moved
    rw [← moved.2]
    refine bound.keep queue rfl rfl (by simp [pc]) ?_
    dsimp only
    rw [pc]
    split <;> simp [Pc.toRun]
  | peekBatchCqe =>
    simp only [Context.advance,pc,Option.some.injEq] at moved
    subst moved
    refine bound.keep queue rfl rfl (by simp [pc]) ?_
    dsimp only
    rw [pc]
    split <;> simp [Pc.toRun]
  | handleCqe i cnt =>
    simp only [Context.advance,pc] at moved
    by_cases more : i < cnt
    · simp only [fits,pushes,pc,more,decide_true,Bool.not_true,Bool.false_or,Bool.and_true,decide_eq_true_eq] at fitting
      cases here : w.cq[i]? with
      | none => simp [more,here] at moved
      | some cqe =>
        simp only [more,if_true,here] at moved
        split at moved
        next =>
          cases moved
          exact bound.keep queue rfl rfl (by simp [pc]) (by simp [pc,Pc.toRun])
        next =>
          cases moved
          refine bound.keep ?_ rfl rfl (by simp [pc]) (by simp [pc,Pc.toRun])
          simp only [State.handleCqe,List.length_append,List.length_singleton]
          omega
    · simp only [more,if_false,Option.some.injEq] at moved
      subst moved
      exact bound.keep queue rfl rfl (by simp [pc]) (by simp [pc,Pc.toRun])
  | wakeUp i cnt =>
    simp only [Context.advance,pc,Option.ite_none_right_eq_some,Option.some.injEq] at moved
    rw [← moved.2]
    exact bound.keep queue rfl rfl (by simp [pc]) (by simp [pc,Pc.toRun])
  | cqAdvance cnt | subtract cnt =>
    simp only [Context.advance,pc,Option.some.injEq] at moved
    subst moved
    exact bound.keep queue rfl rfl (by simp [pc]) (by simp [pc,Pc.toRun])
  | returned | aborted => simp [Context.advance,pc] at moved
  | stopRequested | stopNotRequested | idleWaitWork | notReady | stopCb =>
    simp only [Context.advance,pc,Option.some.injEq] at moved
    subst moved
    refine bound.keep queue rfl rfl (by simp [pc]) ?_
    dsimp only
    first | (split <;> simp [Pc.toRun]) | simp [Pc.toRun]

theorem RingBound.worker {a : Context.Action Coro} (bound : RingBound w) (fitting : fits w a = true)
    (moved : Context.step w a = some w') : RingBound w' := by
  have queue := bound.queue
  cases a with
  | step => exact bound.advance fitting moved
  | accept count =>
    simp only [fits,pushes,Bool.not_false,Bool.true_or,Bool.true_and,beq_iff_eq] at fitting
    simp only [Context.step] at moved
    split at moved
    next pc =>
      simp only [Option.ite_none_right_eq_some,Option.some.injEq] at moved
      rw [← moved.2]
      have emptied : w.sq.drop count = [] := by rw [fitting,List.drop_length]
      exact ⟨queue,fun other => absurd rfl other,by simp [emptied,Pc.toRun]⟩
    next => contradiction
  | submitSelf t =>
    simp only [fits,pushes,Bool.not_true,Bool.false_or,Bool.and_true,decide_eq_true_eq] at fitting
    simp only [Context.step] at moved
    split at moved
    next left handle pc =>
      cases moved
      refine bound.keep ?_ rfl rfl (by simp [pc]) (by simp [pc,Pc.toRun])
      simp only [List.length_append,List.length_singleton]
      omega
    next => contradiction
  | io type data ptr | coAwait ptr => simp [fits] at fitting
  | suspend =>
    simp only [Context.step] at moved
    split at moved
    next left handle pc =>
      cases moved
      exact bound.keep queue rfl rfl (by simp [pc]) (by simp [pc,Pc.toRun])
    next => contradiction
  | registerWait registerCnt =>
    cases Option.some.inj moved
    exact ⟨queue,bound.counted,bound.room⟩
  | push t =>
    simp only [fits,pushes,Bool.not_true,Bool.false_or,Bool.and_true,decide_eq_true_eq] at fitting
    cases Option.some.inj moved
    refine ⟨?_,bound.counted,bound.room⟩
    simp only [List.length_append,List.length_singleton]
    omega
  | wake =>
    simp only [Context.step,Option.ite_none_right_eq_some,Option.some.injEq] at moved
    rw [← moved.2]
    exact ⟨queue,bound.counted,bound.room⟩
  | requestStop =>
    cases Option.some.inj moved
    exact ⟨queue,bound.counted,bound.room⟩
  | stopWake =>
    simp only [Context.step,Option.ite_none_right_eq_some,Option.some.injEq] at moved
    rw [← moved.2]
    exact ⟨queue,bound.counted,bound.room⟩
  | post before after entry res =>
    simp only [Context.step,Option.ite_none_right_eq_some,Option.some.injEq] at moved
    rw [← moved.2]
    exact ⟨queue,bound.counted,bound.room⟩

omit [DecidableEq Coro] in
theorem RingBound.free (bound : RingBound w) {left : Nat} {handle : Coro} (pc : w.pc = .running left handle) :
    getFreeUrs w = some w.sq.length := by
  have room := bound.room
  have entries := kQueCap_le_sqEntries
  rw [pc] at room
  simp only [Pc.toRun] at room
  exact if_pos (by omega)

variable {s s' : State Coro}

private theorem step_bound {a : Action Coro} (bound : RingBound s.worker) (aborted : s.aborted = false) (moved : step s a = some s') :
    RingBound s'.worker ∧ s'.aborted = false := by
  have queue := bound.queue
  have room := bound.room
  cases a with
  | worker a =>
    simp only [step,Option.ite_none_left_eq_some,Bool.or_eq_true,not_or,Option.map_eq_some_iff] at moved
    obtain ⟨⟨_,fitting⟩,w,moved,rfl⟩ := moved
    exact ⟨bound.worker (by simpa using fitting) moved,aborted⟩
  | io type data ptr =>
    cases pc : s.worker.pc with
    | running left handle =>
      simp only [step,pc,bound.free pc,Option.ite_none_left_eq_some,Option.some.injEq] at moved
      rw [← moved.2]
      refine ⟨⟨queue,fun _ => ?_,?_⟩,aborted⟩
      · have counted := bound.counted (by simp [pc])
        simp only [construct,List.length_append,List.length_singleton]
        omega
      · rw [pc] at room
        simp only [Pc.toRun] at room
        simp only [construct,List.length_append,List.length_singleton,Pc.toRun]
        omega
    | _ => simp [step,pc] at moved
  | call child =>
    cases pc : s.worker.pc with
    | running left handle =>
      simp only [step,pc,Option.ite_none_left_eq_some,Option.some.injEq] at moved
      rw [← moved.2]
      exact ⟨bound.keep queue rfl rfl (by simp [pc]) (by simp [pc,Pc.toRun]),aborted⟩
    | _ => simp [step,pc] at moved
  | finish =>
    cases pc : s.worker.pc with
    | running left handle =>
      simp only [step,pc,Option.ite_none_left_eq_some] at moved
      obtain ⟨_,moved⟩ := moved
      cases frame : s.continuation handle with
      | none =>
        simp only [frame,Option.some.injEq] at moved
        rw [← moved]
        exact ⟨bound.keep queue rfl rfl (by simp [pc]) (by simp [pc,Pc.toRun]),aborted⟩
      | some parent =>
        simp only [frame,Option.some.injEq] at moved
        rw [← moved]
        exact ⟨bound.keep queue rfl rfl (by simp [pc]) (by simp [pc,Pc.toRun]),aborted⟩
    | _ => simp [step,pc] at moved

omit [DecidableEq Coro] in
private theorem fresh_bound (fresh : Fresh s) : RingBound s.worker := by
  obtain ⟨_,_,_,_,_,wait,_,sq,_,_,_,_,pc,_⟩ := fresh.worker
  dsimp only at wait sq pc
  refine ⟨fresh.fits,fun _ => by rw [wait,sq]; rfl,?_⟩
  simp only [sq,pc,List.length_nil,Nat.zero_add,Pc.toRun]
  exact Nat.le_refl kQueCap

theorem reachable_bound (reachable : (machine Coro).Reachable s) : RingBound s.worker ∧ s.aborted = false := by
  induction reachable with
  | start fresh => exact ⟨fresh_bound fresh,fresh.aborted⟩
  | step _ _ moved before => exact step_bound before.1 before.2 moved

/-- The submission ring never runs out: wherever a coroutine runs `get_free_urs` has an
entry for it, and the assertion of `base_io_awaiter` holds. -/
theorem ring_never_full (s : State Coro) (reachable : (machine Coro).Reachable s) :
    s.aborted = false ∧ ∀ left handle, s.worker.pc = .running left handle → getFreeUrs s.worker ≠ none := by
  obtain ⟨bound,aborted⟩ := reachable_bound reachable
  refine ⟨aborted,fun left handle pc => ?_⟩
  rw [bound.free pc]
  exact Option.some_ne_none _

def initial : State Nat := ⟨newContext [],fun _ => none,false,0,0⟩

theorem initial_fresh : Fresh initial := ⟨newContext_fresh [],Nat.zero_le _,rfl,rfl,rfl,rfl⟩

/-- Of three coroutines the first reads in a nested task, the second writes and the third runs. -/
def readAndWrite : List (Action Nat) :=
  [.worker (.push 1),.worker .wake,.worker (.push 2),.worker .wake,.worker (.push 3),.worker .wake,.worker .step,.worker .step,.call 4,
    .io .tcpRead 0 0,.worker .step,.io .tcpWrite 0 1,.worker .step]

theorem running_finds_entry : ∃ s, (machine Nat).run initial readAndWrite = some s ∧ s.worker.sq = [⟨0,0⟩,⟨1,1⟩] ∧
    s.worker.pc = .running 0 3 ∧ s.aborted = false ∧ getFreeUrs s.worker ≠ none := by
  have ran : ((machine Nat).run initial readAndWrite).map (fun s => (s.worker.sq,s.worker.pc)) =
      some ([⟨0,0⟩,⟨1,1⟩],.running 0 3) := rfl
  obtain ⟨s,reached,shape⟩ := Option.map_eq_some_iff.mp ran
  obtain ⟨entries,running⟩ := Prod.mk.inj shape
  obtain ⟨aborted,found⟩ := ring_never_full s (Machine.run_reachable _ readAndWrite _ _ (.start initial_fresh) reached)
  exact ⟨s,reached,entries,running,aborted,found 0 3 running⟩

end Sized
end TinyCoro.Context
