import TinyCoro.Context.Completion
import TinyCoro.Context.Wakeup

/-! What holds of the io of an engine in every run: no operation is lost, none is
completed twice, and each has its own result. -/
namespace TinyCoro.Context
open Library

variable {Coro : Type} [DecidableEq Coro]

def Reaps (s : State Coro) : Prop := s.pc.reaping = true → 0 < s.pc.batch + s.pc.reaped

theorem Reaps.advance {s s' : State Coro} (h : Reaps s) (moved : advance s = some s') : Reaps s' := by
  unfold Context.advance at moved
  split at moved
  case h_16 pc =>
    simp only [Option.some.injEq] at moved
    subst moved
    intro here
    dsimp only at here ⊢
    split at here
    next some =>
      rw [if_pos some]
      exact Nat.pos_of_ne_zero some
    next => simp [Pc.reaping] at here
  case h_17 | h_18 | h_19 =>
    next pc =>
      simp only [Reaps,pc,Pc.reaping,Pc.batch,Pc.reaped] at h
      repeat' split at moved
      all_goals cases moved
      all_goals simpa [Reaps,Pc.reaping,Pc.batch,Pc.reaped] using h
  all_goals
    repeat' split at moved
    all_goals cases moved
    all_goals intro here
    all_goals dsimp only at here
    all_goals simp [Pc.reaping] at here

theorem Reaps.step {s s' : State Coro} {a : Action Coro} (h : Reaps s) (moved : step s a = some s') : Reaps s' := by
  cases a with
  | step => exact h.advance moved
  | _ =>
    simp only [Context.step] at moved
    repeat' split at moved
    all_goals cases moved
    all_goals first | exact h | exact fun here => by simp [Pc.reaping] at here

theorem reachable_reaps (s : State Coro) (reachable : (machine Coro).Reachable s) : Reaps s := by
  refine Machine.Within.invariant ?_ (fun _ _ _ before _ moved => before.step moved) reachable
  intro s fresh here
  simp [Context.Fresh.pc fresh,Pc.reaping] at here

/-- The assertion of `submit_task` fails only for an operation that nobody has awaited. -/
def Null (s : State Coro) : Prop :=
  ∀ i cnt, s.pc = .aborted i cnt → ∃ cqe, s.cq[i]? = some cqe ∧ s.coroutine cqe.entry.op = none

section
variable {s s' : State Coro}

theorem Null.advance (ops : Ops s) (moved : advance s = some s') : Null s' := by
  cases pc : s.pc with
  | handleCqe i cnt =>
    simp only [Context.advance,pc] at moved
    split at moved
    next =>
      split at moved
      next => contradiction
      next cqe here =>
        split at moved
        next bare =>
          cases moved
          intro j total same
          obtain ⟨rfl,rfl⟩ := Pc.aborted.inj same
          have front : cqe ∈ s.unreaped := by
            obtain ⟨long,rfl⟩ := List.getElem?_eq_some_iff.mp here
            rw [State.unreaped,pc,Pc.handled,List.drop_eq_getElem_cons long]
            exact List.mem_cons_self
          obtain ⟨lives,made⟩ := ops.alive _ (List.mem_append_right _ (List.mem_map_of_mem front))
          obtain ⟨_,_,_,_,handle⟩ := ops.infos _ lives
          rw [made,bare] at handle
          exact ⟨cqe,here,handle.symm⟩
        next =>
          cases moved
          intro j total same
          cases same
    next =>
      cases moved
      intro j total same
      cases same
  | _ =>
    simp only [Context.advance,pc] at moved
    repeat' split at moved
    all_goals cases moved
    all_goals intro i cnt here
    all_goals dsimp only at here
    all_goals contradiction

theorem Null.step {a : Action Coro} (h : Null s) (ops : Ops s) (moved : step s a = some s') : Null s' := by
  cases a with
  | step => exact Null.advance ops moved
  | post before after entry res =>
    simp only [Context.step] at moved
    split at moved
    next =>
      cases moved
      intro i cnt pc
      obtain ⟨cqe,here,bare⟩ := h i cnt pc
      have long := (List.getElem?_eq_some_iff.mp here).1
      exact ⟨cqe,by rw [List.getElem?_append_left long]; exact here,bare⟩
    next => contradiction
  | _ =>
    simp only [Context.step] at moved
    repeat' split at moved
    all_goals cases moved
    all_goals first
      | exact h
      | intro j total same
        cases same

end

/-- What a coroutine is given for an operation whose CQE has `res`: for a connect the
socket when `res` is 0, for a timer 0 when `res` is `-ETIME`, and else `res`. -/
structure OwnResult (o : Operation) (res result : Int) : Prop where
  connect : o.type = .tcpConnect → result = if res = 0 then o.data else res
  timer : o.type = .timer → result = if res = -62 then 0 else res
  others : o.type ≠ .tcpConnect → o.type ≠ .timer → result = res

private theorem callback_own (o : Operation) (res : Int) : OwnResult o res (callback o.type o.data res) := by
  obtain ⟨type,data⟩ := o
  cases type with
  | tcpConnect => exact ⟨fun _ => by simp only [callback,ite_not],nofun,fun other => absurd rfl other⟩
  | timer => exact ⟨nofun,fun _ => rfl,fun _ other => absurd rfl other⟩
  | _ => exact ⟨nofun,nofun,fun _ _ => rfl⟩

/-- Every operation is in the rings or completed, once, and its coroutine is given its
own result. `empty_io` is false inside the reaping loop, where the thread of the engine
does not read it. The worker stops at an operation that is completed before it is awaited. -/
structure CompletesOnce (s : State Coro) : Prop where
  accounted : ∀ k, k < s.operations.length →
    (s.entries.map Entry.op).count k = 1 ∧ k ∉ s.completed ∨ k ∉ s.entries.map Entry.op ∧ s.completed.count k = 1
  own : ∀ c ∈ s.callbacks, ∃ o res, s.operations[c.op]? = some o ∧ s.posted c.op = some res ∧
    s.coroutine c.op = some c.handle ∧ c.result = callback o.type o.data res ∧ OwnResult o res c.result
  pushed : ∀ t e, s.awaiting t = some e → s.coroutine e.op = some t ∧ s.taskQueue.count t = s.completed.count e.op
  received : ∀ k r, (k,r) ∈ s.received → ∃ o res, s.operations[k]? = some o ∧ s.posted k = some res ∧
    k ∈ s.completed ∧ r = callback o.type o.data res ∧ OwnResult o res r
  running : 0 ≤ s.numIoRunning
  empty : s.emptyIo = true ↔ s.pc.reaping = false ∧ ∀ k, k < s.operations.length → k ∈ s.completed
  aborted : ∀ i cnt, s.pc = .aborted i cnt → ∃ cqe, s.cq[i]? = some cqe ∧ s.coroutine cqe.entry.op = none

theorem Ops.accounted {s : State Coro} (h : Ops s) (k : Nat) (created : k < s.operations.length) :
    (s.entries.map Entry.op).count k = 1 ∧ k ∉ s.completed ∨
      k ∉ s.entries.map Entry.op ∧ s.completed.count k = 1 := by
  have placed := h.placed k
  rw [if_pos created] at placed
  rw [← List.count_eq_zero (l := s.completed),← List.count_eq_zero (l := s.entries.map Entry.op)]
  omega

theorem Ops.owner {s : State Coro} (h : Ops s) {t : Coro} {e : Entry} (waits : s.awaiting t = some e) :
    s.coroutine e.op = some t := by
  obtain ⟨lives,made,owner⟩ := h.frame t e waits
  obtain ⟨_,_,_,_,handle⟩ := h.infos _ lives
  rw [made,owner] at handle
  exact handle.symm

omit [DecidableEq Coro] in
private theorem reaped_of_quiet {pc : Pc Coro} (quiet : pc.reaping = false) : pc.reaped = 0 := by
  cases pc with
  | subtract cnt => simp [Pc.reaping] at quiet
  | _ => rfl

omit [DecidableEq Coro] in
/-- Both counters are zero exactly if the rings are empty and no batch is being reaped. -/
theorem Counters.empty {s : State Coro} (h : Counters s) (reaps : Reaps s) :
    s.emptyIo = true ↔ s.pc.reaping = false ∧ s.inFlight = 0 := by
  have total := h.total
  have wait := h.wait
  have running := h.running
  have batch := h.batch
  simp only [State.emptyIo,decide_eq_true_eq]
  constructor
  · rintro ⟨noWait,noRunning⟩
    have bare : s.inFlight = 0 ∧ s.pc.reaped = 0 := by omega
    refine ⟨?_,bare.1⟩
    by_contra still
    have some := reaps (by simpa using still)
    have := bare.1
    simp only [State.inFlight] at this
    omega
  · rintro ⟨quiet,bare⟩
    have none := reaped_of_quiet quiet
    omega

theorem Ops.empty {s : State Coro} (h : Ops s) (quiet : s.pc.reaping = false) :
    s.inFlight = 0 ↔ ∀ k, k < s.operations.length → k ∈ s.completed := by
  have whole : s.unreaped = s.cq := by
    unfold State.unreaped Pc.handled
    split
    next pc => simp [pc,Pc.reaping] at quiet
    next pc => simp [pc,Pc.reaping] at quiet
    next pc => simp [pc,Pc.reaping] at quiet
    next pc => simp [pc,Pc.reaping] at quiet
    next => rfl
  have size : s.inFlight = s.entries.length := by
    simp [State.inFlight,State.entries,whole,Nat.add_assoc]
  rw [size,List.length_eq_zero_iff]
  constructor
  · intro none k created
    have placed := h.placed k
    rw [if_pos created,none,List.map_nil,List.count_nil] at placed
    exact List.count_pos_iff.mp (by omega)
  · intro all
    refine List.eq_nil_iff_forall_not_mem.mpr fun e member => ?_
    obtain ⟨lives,made⟩ := h.alive e member
    obtain ⟨o,created,_⟩ := h.infos _ lives
    rw [made] at created
    exact h.distinct.2 e member (all e.op (List.getElem?_eq_some_iff.mp created).1)

theorem completesOnce_of {s : State Coro} (counters : Counters s) (ops : Ops s) (reaps : Reaps s) (null : Null s) :
    CompletesOnce s := by
  refine ⟨ops.accounted,?_,fun t e waits => ⟨ops.owner waits,ops.pushed t e waits⟩,?_,counters.running,?_,null⟩
  · intro c inside
    obtain ⟨o,res,created,posted,handle,result⟩ := ops.done c inside
    exact ⟨o,res,created,posted,handle,result,result ▸ callback_own o res⟩
  · intro k r member
    obtain ⟨c,inside,rfl,rfl⟩ := ops.received k r member
    obtain ⟨o,res,created,posted,_,result⟩ := ops.done c inside
    exact ⟨o,res,created,posted,List.mem_map_of_mem inside,result,result ▸ callback_own o res⟩
  · rw [counters.empty reaps]
    exact and_congr_right ops.empty

/-- No operation is lost or completed twice, whenever its awaiter is awaited before the
completion is handled. -/
theorem completes_once (s : State Coro) (within : (machine Coro).Within Undisturbed s) : CompletesOnce s := by
  obtain ⟨⟨counters,ops⟩,null⟩ : (Counters s ∧ Ops s) ∧ Null s := by
    refine @Machine.Within.invariant _ _ _ _ (fun s => (Counters s ∧ Ops s) ∧ Null s) ?_ ?_ s within
    · intro s fresh
      exact ⟨⟨fresh_counters s fresh,fresh_ops s fresh⟩,by simp [Null,fresh.pc]⟩
    · rintro s s' a ⟨⟨counters,ops⟩,null⟩ undisturbed moved
      exact ⟨⟨counters.step moved,ops.step counters undisturbed moved⟩,null.step ops moved⟩
  exact completesOnce_of counters ops (reachable_reaps s within.reachable) null

instance (s : State Coro) : (a : Action Coro) → Decidable (Undisturbed s a)
  | .push t | .submitSelf t => inferInstanceAs (Decidable (s.awaiting t = none))
  | .coAwait _ => inferInstanceAs (Decidable (∀ t ∈ s.pc.current, t ∉ s.taskQueue))
  | .step | .accept _ | .io _ _ _ | .suspend | .registerWait _ | .wake | .requestStop | .stopWake | .post _ _ _ _ =>
    inferInstanceAs (Decidable True)

/-- A coroutine makes the awaiters of a connect and of a noop, and awaits the connect,
which the kernel completes with 0 while the worker is blocked. -/
def connected : List (Action Unit) :=
  [.push (),.wake,.step,.step,.io .tcpConnect 5 0,.io .nop 0 1,.coAwait 0] ++ List.replicate 4 .step ++ .accept 2::
    List.replicate 8 .step ++ .post [] [⟨1,1⟩] ⟨0,0⟩ 0::List.replicate 9 .step

theorem connected_completes_once : ∃ s : State Unit, (machine Unit).guardedRun Undisturbed initial connected = some s ∧
    s.received = [(0,5)] ∧ s.inKernel = [⟨1,1⟩] ∧ CompletesOnce s := by
  have ran : ((machine Unit).guardedRun Undisturbed initial connected).map (fun s => (s.received,s.inKernel)) =
      some ([(0,5)],[⟨1,1⟩]) := by decide
  obtain ⟨s,reached,shape⟩ := Option.map_eq_some_iff.mp ran
  obtain ⟨received,inKernel⟩ := Prod.mk.inj shape
  exact ⟨s,reached,received,inKernel,completes_once s (Machine.guardedRun_within _ _ _ _ (.start initial_fresh) reached)⟩

section
variable {s s' : State Coro}

/-- A worker whose assertion has failed runs no callback and nobody can await any more. -/
theorem aborted_step {i cnt : Nat} (pc : s.pc = .aborted i cnt) (a : Action Coro) (moved : step s a = some s') :
    s'.pc = .aborted i cnt ∧ s'.callbacks = s.callbacks ∧ s'.received = s.received := by
  cases a with
  | step => simp [Context.step,Context.advance,pc] at moved
  | _ =>
    simp only [Context.step] at moved
    repeat' split at moved
    all_goals cases moved
    all_goals first | exact ⟨pc,rfl,rfl⟩ | simp_all

private theorem aborted_for_ever {i cnt : Nat} (pc : s.pc = .aborted i cnt) (actions : List (Action Coro))
    (ran : (machine Coro).run s actions = some s') : s'.callbacks = s.callbacks ∧ s'.received = s.received := by
  have stays : s'.pc = .aborted i cnt ∧ s'.callbacks = s.callbacks ∧ s'.received = s.received := by
    refine Machine.run_invariant (fun t => t.pc = .aborted i cnt ∧ t.callbacks = s.callbacks ∧ t.received = s.received)
      ?_ ⟨pc,rfl,rfl⟩ ran
    rintro t u a ⟨stands,callbacks,received⟩ moved
    obtain ⟨stands',callbacks',received'⟩ := aborted_step stands a moved
    exact ⟨stands',callbacks'.trans callbacks,received'.trans received⟩
  exact stays.2

end

/-- An awaiter is made, and its coroutine suspends elsewhere while the kernel completes. -/
def madeBefore : List (Action Unit) :=
  [.push (),.wake,.step,.step,.io .nop 0 0,.suspend] ++ List.replicate 4 .step ++ .accept 1::
    List.replicate 8 .step ++ .post [] [] ⟨0,0⟩ 0::List.replicate 3 .step

/-- The callback of the only operation has run, inside the reaping loop. -/
def stillReaping : List (Action Unit) :=
  [.push (),.wake,.step,.step,.io .nop 0 0,.coAwait 0] ++ List.replicate 4 .step ++ .accept 1::
    List.replicate 8 .step ++ .post [] [] ⟨0,0⟩ 0::List.replicate 3 .step

/-- A coroutine that has submitted itself awaits an operation. -/
def queuedBefore : List (Action Unit) :=
  [.push (),.wake,.step,.step,.submitSelf (),.step,.io .tcpConnect 5 0,.coAwait 0] ++ List.replicate 4 .step ++ .accept 1::
    List.replicate 4 .step

/-- An operation that is completed before it is awaited is lost, both counters can stand
although every callback has run, and a handle queued by somebody else reads no result. -/
theorem not_every_operation_completes :
    (∃ s, (machine Unit).run initial madeBefore = some s ∧ s.operations.length = 1 ∧ s.posted 0 = some 0 ∧
      ∀ actions t, (machine Unit).run s actions = some t → 0 ∉ t.completed ∧ t.received = []) ∧
    (∃ s, (machine Unit).run initial stillReaping = some s ∧ s.operations.length = 1 ∧ 0 ∈ s.completed ∧ s.emptyIo = false) ∧
    ∃ s, (machine Unit).run initial queuedBefore = some s ∧ s.posted 0 = none ∧ s.received = [(0,0)] := by
  refine ⟨?lost,?stands,?early⟩
  case lost =>
    have ran : ((machine Unit).run initial madeBefore).map (fun s => ((s.operations.length,s.posted 0),(s.completed,s.received),
        match s.pc with | .aborted 0 1 => true | _ => false)) = some ((1,some 0),([],[]),true) := by decide
    obtain ⟨s,reached,shape⟩ := Option.map_eq_some_iff.mp ran
    simp only [Prod.mk.injEq] at shape
    obtain ⟨⟨created,posted⟩,⟨completed,received⟩,aborted⟩ := shape
    have pc : s.pc = .aborted 0 1 := by
      split at aborted
      next pc => exact pc
      next => contradiction
    refine ⟨s,reached,created,posted,fun actions t later => ?_⟩
    obtain ⟨callbacks,same⟩ := aborted_for_ever pc actions later
    constructor
    · rw [State.completed,callbacks]
      rw [State.completed] at completed
      simp [completed]
    · rw [same,received]
  case stands =>
    have ran : ((machine Unit).run initial stillReaping).map (fun s => (s.operations.length,s.completed,s.emptyIo)) =
        some (1,[0],false) := by decide
    obtain ⟨s,reached,shape⟩ := Option.map_eq_some_iff.mp ran
    simp only [Prod.mk.injEq] at shape
    obtain ⟨created,completed,running⟩ := shape
    exact ⟨s,reached,created,by rw [completed]; exact List.mem_singleton_self 0,running⟩
  case early =>
    have ran : ((machine Unit).run initial queuedBefore).map (fun s => (s.posted 0,s.received)) = some (none,[(0,0)]) := by
      decide
    obtain ⟨s,reached,shape⟩ := Option.map_eq_some_iff.mp ran
    obtain ⟨unposted,received⟩ := Prod.mk.inj shape
    exact ⟨s,reached,unposted,received⟩

end TinyCoro.Context
