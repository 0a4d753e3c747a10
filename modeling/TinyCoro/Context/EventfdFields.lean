import TinyCoro.Library.CountedLoop
import TinyCoro.Context.RingBound
import Mathlib.Data.Nat.Bitwise

/-! The fields of the eventfd of a context whose tasks are submitted by its own
worker. Between two reads the loop makes a bounded number of writes, unless it goes
round through its `continue`, which does not read. -/
namespace TinyCoro.Context
open Library

def taskMask : Nat := 0xFFFFF00000000000

def wakeByTask (val : Nat) : Bool := decide (0 < val &&& taskMask)

section
variable {w c : Nat}

private theorem and_taskMask (few : w < 2^20) (low : c < 2^44) : (taskFlag * w + c) &&& taskMask = taskFlag * w := by
  have mask : taskMask = 2^44 * (2^20 - 1) + 0 := by decide
  apply Nat.eq_of_testBit_eq
  intro i
  rw [mask,taskFlag,Nat.testBit_and,Nat.testBit_two_pow_mul_add _ low,Nat.testBit_two_pow_mul_add _ (by decide),
    ← Nat.add_zero (2^44 * w),Nat.testBit_two_pow_mul_add _ (by decide)]
  by_cases below : i < 44
  · simp [below]
  · simp only [if_neg below,Nat.testBit_two_pow_sub_one]
    by_cases within : i - 44 < 20
    · simp [within]
    · have beyond : w < 2^(i - 44) := Nat.lt_of_lt_of_le few (Nat.pow_le_pow_right (by decide) (Nat.le_of_not_lt within))
      rw [Nat.testBit_lt_two_pow beyond,Bool.false_and]

private theorem wakeByTask_iff (few : w < 2^20) (low : c < 2^24) : wakeByTask (taskFlag * w + c) = true ↔ 0 < w := by
  rw [wakeByTask,decide_eq_true_eq,and_taskMask few (by omega),taskFlag]
  omega

private theorem wakeByCqe_iff (low : c < 2^24) : wakeByCqe (taskFlag * w + c) = true ↔ 0 < c := by
  rw [wakeByCqe,decide_eq_true_eq,cqeBits_eq,taskFlag]
  omega

end

/-- Where the worker is in its loop, as far as its own pushes are concerned. -/
def Pc.stage {Coro : Type} : Pc Coro → CountedLoop.Stage
  | .processWork => .head
  | .exec left | .running left _ => .tasks left false
  | .wakeSelf left _ => .tasks left true
  | .peekBatchCqe | .handleCqe _ _ | .cqAdvance _ | .subtract _ | .aborted _ _ => .reaping false
  | .wakeUp _ _ => .reaping true
  | _ => .tail

namespace Sized
variable {Coro : Type}

/-- Tasks are submitted by the worker alone, and a completion or stop is written while
the low field has room. -/
def Assumed (s : State Coro) : Action Coro → Prop
  | .worker (.push _) | .worker .wake => False
  | .worker .stopWake | .worker (.post _ _ _ _) => s.cqeWrites + 1 < 2^24
  | _ => True

instance (s : State Coro) (a : Action Coro) : Decidable (Assumed s a) := by
  unfold Assumed
  split <;> infer_instance

def own (Coro : Type) [DecidableEq Coro] : Machine (State Coro) (Action Coro) := (machine Coro).restrict Assumed

/-- Fewer than 2^20 task_flag writes, so that none of the worker's blocks, and a value
that tells which writes were made since the last read. -/
structure Fields (s : State Coro) : Prop where
  few : s.taskWrites < 2^20
  unblocked : s.worker.pc.owesWake = true → s.worker.canWrite taskFlag
  task : wakeByTask s.worker.efd = true ↔ 0 < s.taskWrites
  cqe : wakeByCqe s.worker.efd = true ↔ 0 < s.cqeWrites

/-- A task submits to its own context only while a further task_flag write fits. -/
def SubmitsUnsaturated (s : State Coro) : Action Coro → Prop
  | .worker (.submitSelf _) => s.taskWrites + 1 < 2^20
  | _ => True

/-- `run` takes its `continue` only while as many writes still fit as the task queue
has places. -/
def PollsInTime (s : State Coro) : Action Coro → Prop
  | .worker .step =>
    match s.worker.pc with
    | .ready => s.worker.taskQueue ≠ [] → s.taskWrites + kQueCap < 2^20
    | _ => True
  | _ => True

instance (s : State Coro) (a : Action Coro) : Decidable (PollsInTime s a) := by
  unfold PollsInTime
  split
  · split <;> infer_instance
  · infer_instance

def turn (s : State Coro) : CountedLoop.Turn := ⟨s.worker.pc.stage,s.worker.taskQueue.length,s.taskWrites⟩

def label (s : State Coro) : Action Coro → CountedLoop.Label
  | .worker (.submitSelf _) => .push
  | .worker .step =>
    match s.worker.pc with
    | .ready => if s.worker.taskQueue = [] then .other else .again
    | _ => .other
  | _ => .other

structure Inv (s : State Coro) : Prop where
  sum : s.worker.efd = taskFlag * s.taskWrites + s.cqeWrites
  low : s.cqeWrites < 2^24
  sound : (turn s).Sound kQueCap (2^20)

private theorem canWrite_iff {w : Context.State Coro} {n c : Nat} (sum : w.efd = taskFlag * n + c) (low : c < 2^24) :
    w.canWrite taskFlag ↔ n + 1 < 2^20 := by
  rw [State.canWrite,sum,taskFlag]
  omega

variable {s s' : State Coro}

private theorem worker_step [DecidableEq Coro] {a : Context.Action Coro} (moved : step s (.worker a) = some s') :
    s.aborted = false ∧ fits s.worker a = true ∧ ∃ w, Context.step s.worker a = some w ∧
      s' = { s with
        worker := w
        taskWrites := if reads s.worker a then 0 else s.taskWrites + taskWrite s.worker a
        cqeWrites := if reads s.worker a then 0 else s.cqeWrites + cqeWrite a } := by
  simp only [step,Option.ite_none_left_eq_some,Bool.or_eq_true,not_or,Option.map_eq_some_iff,Bool.not_eq_true,
    Bool.not_eq_true'] at moved
  obtain ⟨⟨aborted,fitting⟩,w,moves,rfl⟩ := moved
  exact ⟨aborted,by simpa using fitting,w,moves,rfl⟩

private theorem nested_step [DecidableEq Coro] {a : Action Coro} (nested : ∀ b, a ≠ .worker b) (moved : step s a = some s') :
    turn s' = turn s ∧ s'.worker.efd = s.worker.efd ∧ s'.cqeWrites = s.cqeWrites := by
  cases a with
  | worker b => exact absurd rfl (nested b)
  | io type data ptr =>
    cases pc : s.worker.pc with
    | running left handle =>
      simp only [step,pc,Option.ite_none_left_eq_some] at moved
      obtain ⟨_,moves⟩ := moved
      cases entry : getFreeUrs s.worker with
      | none =>
        simp only [entry,Option.some.injEq] at moves
        subst moves
        exact ⟨rfl,rfl,rfl⟩
      | some n =>
        simp only [entry,Option.some.injEq] at moves
        subst moves
        simp [turn,pc,construct,Pc.stage]
    | _ => simp [step,pc] at moved
  | call child =>
    cases pc : s.worker.pc with
    | running left handle =>
      simp only [step,pc,Option.ite_none_left_eq_some,Option.some.injEq] at moved
      obtain ⟨_,rfl⟩ := moved
      simp [turn,pc,Pc.stage]
    | _ => simp [step,pc] at moved
  | finish =>
    cases pc : s.worker.pc with
    | running left handle =>
      simp only [step,pc,Option.ite_none_left_eq_some] at moved
      obtain ⟨_,moves⟩ := moved
      cases frame : s.continuation handle with
      | none =>
        simp only [frame,Option.some.injEq] at moves
        subst moves
        simp [turn,pc,Pc.stage]
      | some parent =>
        simp only [frame,Option.some.injEq] at moves
        subst moves
        simp [turn,pc,Pc.stage]
    | _ => simp [step,pc] at moved

/-- The fields are as they should be where the worker's next write fits. -/
theorem Inv.fields_iff (inv : Inv s) : Fields s ↔ (turn s).load < 2^20 := by
  have short := inv.sound.short
  have writes := canWrite_iff inv.sum inv.low
  have due : (s.worker.pc.owesWake = true ∧ s.worker.pc.stage.due = 1) ∨
      (s.worker.pc.owesWake = false ∧ s.worker.pc.stage.due = 0) := by
    cases s.worker.pc <;> simp [Pc.owesWake,Pc.stage,CountedLoop.Stage.due]
  simp only [CountedLoop.Turn.load,turn] at short ⊢
  constructor
  · intro fields
    rcases due with ⟨owes,one⟩ | ⟨_,none⟩
    · rw [one]
      exact writes.mp (fields.unblocked owes)
    · rw [none]
      exact short
  · intro fits
    refine ⟨short,fun owes => ?_,?_,?_⟩
    · rcases due with ⟨_,one⟩ | ⟨free,_⟩
      · rw [one] at fits
        exact writes.mpr fits
      · rw [owes] at free
        contradiction
    · rw [inv.sum]
      exact wakeByTask_iff short inv.low
    · rw [inv.sum]
      exact wakeByCqe_iff inv.low

variable [DecidableEq Coro]

/-- Each step of the worker is one of the loop. -/
theorem advance_tick (inv : Inv s) (fitting : fits s.worker .step = true) {w : Context.State Coro}
    (moved : Context.advance s.worker = some w) : CountedLoop.Tick kQueCap (2^20) (label s (.worker .step)) (turn s)
    ⟨w.pc.stage,w.taskQueue.length,if reads s.worker .step then 0 else s.taskWrites + taskWrite s.worker .step⟩ := by
  have writes := canWrite_iff inv.sum inv.low
  cases pc : s.worker.pc with
  | processWork =>
    simp only [Context.advance,pc,Option.some.injEq] at moved
    subst moved
    simp only [label,turn,reads,taskWrite,pc]
    exact .snapshot _ _
  | exec left =>
    cases left with
    | zero =>
      simp only [Context.advance,pc,Option.some.injEq] at moved
      subst moved
      simp only [label,turn,reads,taskWrite,pc]
      exact .leave _ _
    | succ left =>
      cases tasks : s.worker.taskQueue with
      | nil => simp [Context.advance,pc,tasks] at moved
      | cons handle rest =>
        simp only [Context.advance,pc,tasks,Option.some.injEq] at moved
        subst moved
        simp only [label,turn,reads,taskWrite,pc,tasks]
        exact .pop _ _ _
  | running left handle => simp [Context.advance,pc] at moved
  | wakeSelf left handle =>
    simp only [Context.advance,pc,Option.ite_none_right_eq_some,Option.some.injEq] at moved
    obtain ⟨fit,rfl⟩ := moved
    simp only [label,turn,reads,taskWrite,pc]
    exact .count _ _ _ (writes.mp fit)
  | ready =>
    simp only [Context.advance,pc,Option.some.injEq] at moved
    subst moved
    simp only [label,turn,reads,taskWrite,pc]
    by_cases empty : s.worker.taskQueue = []
    · simp only [if_pos empty]
      exact .stay _
    · simp only [if_neg empty]
      exact .again _ _
  | waitEventfd =>
    simp only [Context.advance,pc,Option.ite_none_left_eq_some,Option.some.injEq] at moved
    obtain ⟨_,rfl⟩ := moved
    simp only [label,turn,reads,taskWrite,pc]
    cases wakeByCqe s.worker.efd with
    | true => exact .readReap _ _
    | false => exact .read _ _
  | peekBatchCqe =>
    simp only [Context.advance,pc,Option.some.injEq] at moved
    subst moved
    simp only [label,turn,reads,taskWrite,pc]
    split
    · exact .stay _
    · exact .reaped _ _
  | handleCqe i cnt =>
    simp only [Context.advance,pc] at moved
    by_cases more : i < cnt
    · simp only [fits,pushes,pc,more,decide_true,Bool.not_true,Bool.false_or,Bool.and_true,decide_eq_true_eq] at fitting
      cases here : s.worker.cq[i]? with
      | none => simp [more,here] at moved
      | some cqe =>
        simp only [more,if_true,here] at moved
        split at moved
        next =>
          cases moved
          simp only [label,turn,reads,taskWrite,pc,State.storeResult]
          exact .stay _
        next =>
          cases moved
          simp only [label,turn,reads,taskWrite,pc,State.handleCqe,List.length_append]
          exact .reap _ _ fitting
    · simp only [more,if_false,Option.some.injEq] at moved
      subst moved
      simp only [label,turn,reads,taskWrite,pc]
      exact .stay _
  | wakeUp i cnt =>
    simp only [Context.advance,pc,Option.ite_none_right_eq_some,Option.some.injEq] at moved
    obtain ⟨fit,rfl⟩ := moved
    simp only [label,turn,reads,taskWrite,pc]
    exact .countReaped _ _ (writes.mp fit)
  | cqAdvance cnt =>
    simp only [Context.advance,pc,Option.some.injEq] at moved
    subst moved
    simp only [label,turn,reads,taskWrite,pc]
    exact .stay _
  | subtract cnt =>
    simp only [Context.advance,pc,Option.some.injEq] at moved
    subst moved
    simp only [label,turn,reads,taskWrite,pc]
    exact .reaped _ _
  | returned | aborted => simp [Context.advance,pc] at moved
  | doIoSubmit =>
    simp only [Context.advance,pc,Option.ite_none_left_eq_some,Option.some.injEq] at moved
    obtain ⟨_,rfl⟩ := moved
    simp only [label,turn,reads,taskWrite,pc]
    exact .stay _
  | stopRequested | emptyWaitWork | stopNotRequested | idleWaitWork | notReady =>
    simp only [Context.advance,pc,Option.some.injEq] at moved
    subst moved
    simp only [label,turn,reads,taskWrite,pc]
    split <;> exact .stay _
  | stopCb | ioSubmitted =>
    simp only [Context.advance,pc,Option.some.injEq] at moved
    subst moved
    simp only [label,turn,reads,taskWrite,pc]
    exact .stay _

private theorem advance_sum {w w' : Context.State Coro} (moved : Context.advance w = some w') :
    w'.efd = if reads w .step then 0 else w.efd + taskFlag * taskWrite w .step := by
  cases pc : w.pc with
  | exec left =>
    cases left with
    | zero =>
      simp only [Context.advance,pc,Option.some.injEq] at moved
      subst moved
      simp [reads,taskWrite,pc]
    | succ left =>
      cases tasks : w.taskQueue with
      | nil => simp [Context.advance,pc,tasks] at moved
      | cons handle rest =>
        simp only [Context.advance,pc,tasks,Option.some.injEq] at moved
        subst moved
        simp [reads,taskWrite,pc]
  | running left handle => simp [Context.advance,pc] at moved
  | wakeSelf left handle | wakeUp left handle =>
    simp only [Context.advance,pc,Option.ite_none_right_eq_some,Option.some.injEq] at moved
    obtain ⟨_,rfl⟩ := moved
    simp [reads,taskWrite,pc,State.writeEventfd]
  | waitEventfd =>
    simp only [Context.advance,pc,Option.ite_none_left_eq_some,Option.some.injEq] at moved
    obtain ⟨_,rfl⟩ := moved
    simp [reads,pc]
  | doIoSubmit =>
    simp only [Context.advance,pc,Option.ite_none_left_eq_some,Option.some.injEq] at moved
    obtain ⟨_,rfl⟩ := moved
    simp [reads,taskWrite,pc]
  | handleCqe i cnt =>
    simp only [Context.advance,pc] at moved
    by_cases more : i < cnt
    · cases here : w.cq[i]? with
      | none => simp [more,here] at moved
      | some cqe =>
        simp only [more,if_true,here] at moved
        split at moved
        all_goals cases moved
        all_goals simp [reads,taskWrite,pc,State.handleCqe,State.storeResult]
    · simp only [more,if_false,Option.some.injEq] at moved
      subst moved
      simp [reads,taskWrite,pc]
  | returned | aborted => simp [Context.advance,pc] at moved
  | _ =>
    simp only [Context.advance,pc,Option.some.injEq] at moved
    subst moved
    simp [reads,taskWrite,pc]

private theorem own_step {a : Action Coro} (moved : (own Coro).step s a = some s') : Assumed s a ∧ step s a = some s' :=
  Machine.restrict_step.mp moved

private theorem own_tick (inv : Inv s) {a : Action Coro} (moved : (own Coro).step s a = some s') :
    CountedLoop.Tick kQueCap (2^20) (label s a) (turn s) (turn s') := by
  obtain ⟨assumed,moves⟩ := own_step moved
  cases a with
  | worker a =>
    obtain ⟨_,fitting,w,went,rfl⟩ := worker_step moves
    cases a with
    | step => exact advance_tick inv fitting went
    | submitSelf t =>
      simp only [fits,pushes,Bool.not_true,Bool.false_or,Bool.and_true,decide_eq_true_eq] at fitting
      cases pc : s.worker.pc with
      | running left handle =>
        simp only [Context.step,pc,Option.some.injEq] at went
        subst went
        simp only [label,turn,reads,taskWrite,pc,List.length_append]
        exact .push _ _ _ fitting
      | _ => simp [Context.step,pc] at went
    | suspend =>
      cases pc : s.worker.pc with
      | running left handle =>
        simp only [Context.step,pc,Option.some.injEq] at went
        subst went
        simp only [label,turn,reads,taskWrite,pc]
        exact .stay _
      | _ => simp [Context.step,pc] at went
    | accept count =>
      cases pc : s.worker.pc with
      | doIoSubmit =>
        simp only [Context.step,pc,Option.ite_none_right_eq_some,Option.some.injEq] at went
        obtain ⟨_,rfl⟩ := went
        simp only [label,turn,reads,taskWrite,pc]
        exact .stay _
      | _ => simp [Context.step,pc] at went
    | io type data ptr | coAwait ptr => simp [fits] at fitting
    | registerWait registerCnt | requestStop =>
      cases Option.some.inj went
      exact .stay _
    | push t | wake => exact assumed.elim
    | stopWake | post before after entry res =>
      simp only [Context.step,Option.ite_none_right_eq_some,Option.some.injEq] at went
      obtain ⟨_,rfl⟩ := went
      exact .stay _
  | io type data ptr | call child | finish =>
    rw [(nested_step (by simp) moves).1]
    exact .stay _

private theorem own_sum (inv : Inv s) {a : Action Coro} (moved : (own Coro).step s a = some s') :
    s'.worker.efd = taskFlag * s'.taskWrites + s'.cqeWrites ∧ s'.cqeWrites < 2^24 := by
  have sum := inv.sum
  have low := inv.low
  obtain ⟨assumed,moves⟩ := own_step moved
  cases a with
  | worker a =>
    obtain ⟨_,fitting,w,went,rfl⟩ := worker_step moves
    cases a with
    | step =>
      have written := advance_sum went
      dsimp only
      rw [written,sum]
      split
      · exact ⟨rfl,by decide⟩
      · rw [Nat.mul_add]
        exact ⟨by simp only [cqeWrite]; omega,low⟩
    | submitSelf t | suspend =>
      cases pc : s.worker.pc with
      | running left handle =>
        simp only [Context.step,pc,Option.some.injEq] at went
        subst went
        exact ⟨sum,low⟩
      | _ => simp [Context.step,pc] at went
    | accept count =>
      cases pc : s.worker.pc with
      | doIoSubmit =>
        simp only [Context.step,pc,Option.ite_none_right_eq_some,Option.some.injEq] at went
        obtain ⟨_,rfl⟩ := went
        exact ⟨sum,low⟩
      | _ => simp [Context.step,pc] at went
    | io type data ptr | coAwait ptr => simp [fits] at fitting
    | registerWait registerCnt | requestStop =>
      cases Option.some.inj went
      exact ⟨sum,low⟩
    | push t | wake => exact assumed.elim
    | stopWake | post before after entry res =>
      simp only [Context.step,Option.ite_none_right_eq_some,Option.some.injEq] at went
      obtain ⟨_,rfl⟩ := went
      refine ⟨?_,assumed⟩
      simp only [State.writeEventfd,reads,taskWrite,cqeWrite,Bool.false_eq_true,if_false,Nat.add_zero]
      omega
  | io type data ptr | call child | finish =>
    obtain ⟨same,efd,cqe⟩ := nested_step (by simp) moves
    have writes : s'.taskWrites = s.taskWrites := congrArg CountedLoop.Turn.counted same
    rw [efd,cqe,writes]
    exact ⟨sum,low⟩

private theorem own_inv {a : Action Coro} (inv : Inv s) (moved : (own Coro).step s a = some s') : Inv s' := by
  obtain ⟨sum,low⟩ := own_sum inv moved
  exact ⟨sum,low,(own_tick inv moved).sound inv.sound⟩

omit [DecidableEq Coro] in
private theorem fresh_head (fresh : Fresh s) : turn s = ⟨.head,s.worker.taskQueue.length,s.worker.taskQueue.length⟩ := by
  have pc := fresh.worker.pc
  dsimp only at pc
  simp only [turn,pc,fresh.taskWrites]
  rfl

private theorem kQueCap_fits : 2 * kQueCap < 2^20 := by decide

omit [DecidableEq Coro] in
private theorem fresh_inv (fresh : Fresh s) : Inv s := by
  have room := fresh.fits
  refine ⟨?_,?_,?_⟩
  · rw [fresh.efd,fresh.taskWrites,fresh.cqeWrites]
    exact (Nat.add_zero _).symm
  · rw [fresh.cqeWrites]
    decide
  · rw [fresh_head fresh]
    exact ⟨room,Nat.lt_of_le_of_lt room (by decide),fun _ other => by cases other⟩

omit [DecidableEq Coro] in
private theorem fresh_affords (fresh : Fresh s) : (turn s).Affords kQueCap (2^20) := by
  have room := fresh.fits
  have fits := kQueCap_fits
  rw [fresh_head fresh]
  simp only [CountedLoop.Turn.Affords,CountedLoop.Turn.load,CountedLoop.Turn.budget,CountedLoop.Stage.due]
  omega

omit [DecidableEq Coro] in
private theorem pollsInTime_again (a : Action Coro) (polls : PollsInTime s a) (again : label s a = .again) :
    (turn s).load + kQueCap < 2^20 := by
  unfold label at again
  split at again
  next => contradiction
  next =>
    split at again
    next pc =>
      split at again
      next => contradiction
      next more =>
        simp only [PollsInTime,pc] at polls
        simp only [turn,pc,CountedLoop.Turn.load]
        exact polls more
    next => contradiction
  next => contradiction

private theorem push_iff {a : Action Coro} (moved : (own Coro).step s a = some s') :
    (label s a = .push → (turn s).load + 1 < 2^20) ↔ SubmitsUnsaturated s a := by
  obtain ⟨_,moves⟩ := own_step moved
  cases a with
  | worker a =>
    cases a with
    | submitSelf t =>
      obtain ⟨_,_,w,went,_⟩ := worker_step moves
      cases pc : s.worker.pc with
      | running left handle =>
        simp only [SubmitsUnsaturated,turn,pc]
        constructor
        · intro fits
          exact fits rfl
        · intro fits _
          exact fits
      | _ => simp [Context.step,pc] at went
    | step =>
      refine iff_of_true ?_ trivial
      intro push
      simp only [label] at push
      split at push
      next =>
        split at push
        next => contradiction
        next => contradiction
      next => contradiction
    | _ => exact iff_of_true (fun push => by cases push) trivial
  | _ => exact iff_of_true (fun push => by cases push) trivial

/-- A run whose tasks submit to their own context keeps the fields apart, and none of the
worker's writes blocks, exactly if no task submits while the task_flag writes since the
last read are 2^20 - 1. They never are where `continue` is taken only while another round
fits. -/
theorem eventfd_fields_iff (actions : List (Action Coro)) (s s' : State Coro) (fresh : Fresh s)
    (ran : (own Coro).run s actions = some s') :
    ((own Coro).Always Fields s actions ↔ (own Coro).Meets SubmitsUnsaturated s actions) ∧
      ((own Coro).Meets PollsInTime s actions → (own Coro).Always Fields s actions) := by
  have fits := kQueCap_fits
  have inv := fresh_inv fresh
  have affords := fresh_affords fresh
  have exact : (own Coro).Always Fields s actions ↔ (own Coro).Meets SubmitsUnsaturated s actions := by
    apply Machine.always_iff_meets Inv (fun _ _ _ inv moved => own_inv inv moved) ?_ actions s s' ran inv
    · exact inv.fields_iff.mpr (affords.load_lt (by omega) inv.sound)
    · intro s t a inv fields moved
      have before := inv.fields_iff.mp fields
      rw [(own_inv inv moved).fields_iff,(own_tick inv moved).load_lt (by omega) inv.sound before]
      exact push_iff moved
  refine ⟨exact,fun polls => exact.mpr ?_⟩
  apply Machine.Meets.weaken (fun s => Inv s ∧ (turn s).Affords kQueCap (2^20)) ?_ ?_ actions s s' ran ⟨inv,affords⟩ polls
  · intro s t a ⟨inv,affords⟩ polls moved
    exact ⟨own_inv inv moved,(own_tick inv moved).affords fits inv.sound affords (pollsInTime_again a polls)⟩
  · intro s t a ⟨inv,affords⟩ polls moved
    refine (push_iff moved).mp fun push => ?_
    have tick := own_tick inv moved
    rw [push] at tick
    exact tick.push_affords affords inv.sound.queue

def submitted : State Unit := ⟨{ Context.initial with taskQueue := [()], efd := taskFlag },fun _ => none,false,1,0⟩

private theorem submitted_fresh : Fresh submitted := by
  obtain ⟨_,rest⟩ := Context.initial_fresh
  exact ⟨⟨rfl,rest⟩,by decide,rfl,rfl,rfl,rfl⟩

/-- The coroutine submits itself once more and the stop is requested: the loop goes on by
`continue`. -/
def resubmits : List (Action Unit) := [.worker .step,.worker .step,.worker (.submitSelf ()),.worker .step,.worker .suspend,
  .worker .requestStop,.worker .step,.worker .step,.worker .step,.worker .step]

theorem resubmits_fields : (own Unit).Always Fields submitted resubmits := by
  have ran : ((own Unit).guardedRun PollsInTime submitted resubmits).isSome = true := by decide
  obtain ⟨s,ran⟩ := Option.isSome_iff_exists.mp ran
  obtain ⟨polls,ran⟩ := Machine.guardedRun_meets _ resubmits _ s ran
  exact (eventfd_fields_iff resubmits submitted s submitted_fresh ran).2 polls

/-- The coroutine has submitted itself n times since the stop was requested, and does it
once more. -/
def spinning (n : Nat) (pc : Pc Unit) : State Unit :=
  ⟨{ Context.initial with taskQueue := [()], efd := taskFlag * (n+1), stop := true, stopping := 1, pc := pc },
    fun _ => none,false,n+1,0⟩

private theorem spin_push (n : Nat) : (own Unit).run (spinning n .processWork)
    [.worker .step,.worker .step,.worker (.submitSelf ())] = some (spinning n (.wakeSelf 0 ())) := rfl

private theorem advance_wakeSelf {w : Context.State Unit} {left : Nat} (pc : w.pc = .wakeSelf left ()) (fits : w.canWrite taskFlag) :
    advance w = some { w.writeEventfd taskFlag with pc := .running left () } := by
  simp only [advance,pc,if_pos fits]

private theorem spin_wake (n : Nat) (fit : n + 2 < 2^20) :
    (own Unit).run (spinning n (.wakeSelf 0 ())) [.worker .step] = some (spinning (n+1) (.running 0 ())) := by
  have fits : (spinning n (.wakeSelf 0 ())).worker.canWrite taskFlag := (canWrite_iff (c := 0) rfl (by decide)).mpr fit
  have more : taskFlag * (n+1) + taskFlag = taskFlag * (n+1+1) := (Nat.mul_succ _ _).symm
  have went : Context.step (spinning n (.wakeSelf 0 ())).worker .step = some (spinning (n+1) (.running 0 ())).worker := by
    rw [Context.step,advance_wakeSelf rfl fits]
    simp only [State.writeEventfd,spinning,more]
  rw [Machine.run_single]
  refine Machine.restrict_step.mpr ⟨trivial,?_⟩
  simp only [machine,step]
  rw [went]
  rfl

private theorem spin_round (n : Nat) : (own Unit).run (spinning n (.running 0 ()))
    [.worker .suspend,.worker .step,.worker .step,.worker .step,.worker .step] = some (spinning n .processWork) := rfl

private theorem spinning_reachable (n : Nat) (fit : n + 1 < 2^20) : (own Unit).Reachable (spinning n .processWork) := by
  induction n with
  | zero =>
    apply Machine.run_reachable _ [.worker .requestStop] submitted _ (.start submitted_fresh)
    rfl
  | succ n ih =>
    have pushed := Machine.run_reachable _ _ _ _ (ih (by omega)) (spin_push n)
    have woken := Machine.run_reachable _ _ _ _ pushed (spin_wake n fit)
    exact Machine.run_reachable _ _ _ _ woken (spin_round (n+1))

/-- The write number 2^20 blocks the worker. -/
theorem fields_saturate : ¬ ∀ s : State Unit, (own Unit).Reachable s → Fields s := by
  intro always
  have last := spinning_reachable (2^20 - 2) (by decide)
  have fields := always _ (Machine.run_reachable _ _ _ _ last (spin_push _))
  have fits := (canWrite_iff (n := 2^20 - 1) (c := 0) rfl (by decide)).mp (fields.unblocked rfl)
  exact absurd fits (by decide)

end Sized
end TinyCoro.Context
