import TinyCoro.Context.CompletesOnce

/-! The results of the operations: each is handed to its coroutine once, and all of
them are before the worker leaves `run`. -/
namespace TinyCoro.Context
open Library

variable {Coro : Type} [DecidableEq Coro]

/-- From the check of `empty_io` in `ready` to the end. -/
def Pc.leaves : Pc Coro → Bool
  | .ready | .returned => true
  | _ => false

/-- A coroutine has the results of all the operations that it has co_awaited but the one
that it awaits, once each. -/
structure Receives (s : State Coro) : Prop where
  once : ∀ k t, s.coroutine k = some t →
    (s.received.map Prod.fst).count k = if (s.awaiting t).map Entry.op = some k then 0 else 1
  unawaited : ∀ k, s.coroutine k = none → k ∉ s.received.map Prod.fst

/-- The worker leaves `run` without an operation, and without a coroutine that awaits one. -/
structure Leaves (s : State Coro) : Prop where
  io : s.pc.leaves = true → s.emptyIo = true
  awaiting : s.pc = .returned → ∀ t, s.awaiting t = none

section
variable {s s' : State Coro}

omit [DecidableEq Coro] in
private theorem fresh_receives (fresh : Fresh s) : Receives s := by
  obtain ⟨_,_,_,_,_,_,_,_,_,_,_,_,_,_,coroutine,_,_,received⟩ := fresh
  constructor <;> simp [coroutine,received]

omit [DecidableEq Coro] in
private theorem fresh_leaves (fresh : Fresh s) : Leaves s := by
  constructor <;> simp [fresh.pc,Pc.leaves]

/-- All that a step does to the coroutines that await an operation. -/
inductive IoMoved (s s' : State Coro) : Prop
  | kept (coroutine : s'.coroutine = s.coroutine) (awaiting : s'.awaiting = s.awaiting) (received : s'.received = s.received)
  | took (handle : Coro) (entry : Entry) (r : Int) (waits : s.awaiting handle = some entry)
    (coroutine : s'.coroutine = s.coroutine) (awaiting : s'.awaiting = Function.update s.awaiting handle none)
    (received : s'.received = s.received ++ [(entry.op,r)])
  | began (left : Nat) (handle : Coro) (ptr : InfoPtr) (pc : s.pc = .running left handle) (lives : s.live ptr = true)
    (bare : (s.info ptr).handle = none) (coroutine : s'.coroutine = Function.update s.coroutine (s.made ptr) (some handle))
    (awaiting : s'.awaiting = Function.update s.awaiting handle (some ⟨s.made ptr,ptr⟩)) (received : s'.received = s.received)

private theorem ioMoved_of_exec {left : Nat} (pc : s.pc = .exec left) (moved : Context.advance s = some s') : IoMoved s s' := by
  cases left with
  | zero =>
    simp only [Context.advance,pc,Option.some.injEq] at moved
    subst moved
    exact .kept rfl rfl rfl
  | succ left =>
    simp only [Context.advance,pc] at moved
    split at moved
    next => contradiction
    next handle rest front =>
      cases moved
      cases waits : s.awaiting handle with
      | none =>
        have same : s.resume handle = s := by rw [State.resume,waits]
        rw [same]
        exact .kept rfl rfl rfl
      | some entry =>
        have taken : s.resume handle = { s with
            awaiting := Function.update s.awaiting handle none
            live := Function.update s.live entry.userData false
            received := s.received ++ [(entry.op,(s.info entry.userData).result)] } := by rw [State.resume,waits]
        rw [taken]
        exact .took handle entry _ waits rfl rfl rfl

private theorem ioMoved_of_step {a : Action Coro} (moved : step s a = some s') : IoMoved s s' := by
  cases a with
  | step =>
    simp only [Context.step] at moved
    cases pc : s.pc with
    | exec left => exact ioMoved_of_exec pc moved
    | _ =>
      simp only [Context.advance,pc] at moved
      repeat' split at moved
      all_goals cases moved
      all_goals exact .kept rfl rfl rfl
  | coAwait ptr =>
    simp only [Context.step] at moved
    split at moved
    next left handle pc =>
      split at moved
      next waits =>
        cases moved
        exact .began left handle ptr pc waits.1 waits.2 rfl rfl rfl
      next => contradiction
    next => contradiction
  | _ =>
    simp only [Context.step] at moved
    repeat' split at moved
    all_goals cases moved
    all_goals exact .kept rfl rfl rfl

theorem Receives.took (h : Receives s) (ops : Ops s) {handle : Coro} {entry : Entry} {r : Int} (waits : s.awaiting handle = some entry)
    (coroutine : s'.coroutine = s.coroutine) (awaiting : s'.awaiting = Function.update s.awaiting handle none)
    (received : s'.received = s.received ++ [(entry.op,r)]) : Receives s' := by
  have owner := ops.owner waits
  constructor
  · intro k t known
    rw [coroutine] at known
    have before := h.once k t known
    rw [received,awaiting,List.map_append,List.count_append,before]
    by_cases own : t = handle
    · rw [own,waits,Function.update_self]
      by_cases this : entry.op = k <;> simp [this]
    · have other : entry.op ≠ k := by
        rintro rfl
        rw [owner,Option.some.injEq] at known
        exact own known.symm
      rw [Function.update_of_ne own]
      simp [other]
  · intro k bare member
    rw [coroutine] at bare
    rw [received,List.map_append,List.mem_append] at member
    rcases member with old | new
    · exact h.unawaited k bare old
    · rw [List.mem_singleton.mp new,owner] at bare
      contradiction

theorem Receives.began (h : Receives s) (ops : Ops s) {left : Nat} {handle : Coro} {ptr : InfoPtr}
    (pc : s.pc = .running left handle) (lives : s.live ptr = true) (bare : (s.info ptr).handle = none)
    (coroutine : s'.coroutine = Function.update s.coroutine (s.made ptr) (some handle))
    (awaiting : s'.awaiting = Function.update s.awaiting handle (some ⟨s.made ptr,ptr⟩))
    (received : s'.received = s.received) : Receives s' := by
  have idle : s.awaiting handle = none := ops.current handle (by rw [pc]; rfl)
  obtain ⟨_,_,_,_,unknown⟩ := ops.infos ptr lives
  rw [bare] at unknown
  constructor
  · intro k t known
    rw [received,awaiting]
    by_cases this : k = s.made ptr
    · rw [coroutine,this,Function.update_self,Option.some.injEq] at known
      rw [← known,this,Function.update_self,Option.map_some,if_pos rfl]
      exact List.count_eq_zero_of_not_mem (h.unawaited _ unknown.symm)
    · rw [coroutine,Function.update_of_ne this] at known
      have before := h.once k t known
      by_cases own : t = handle
      · rw [own,idle] at before
        rw [own,Function.update_self,before]
        simp [Ne.symm this]
      · rw [Function.update_of_ne own]
        exact before
  · intro k unknown'
    rw [received]
    by_cases this : k = s.made ptr
    · rw [coroutine,this,Function.update_self] at unknown'
      contradiction
    · rw [coroutine,Function.update_of_ne this] at unknown'
      exact h.unawaited k unknown'

theorem Receives.step {a : Action Coro} (h : Receives s) (ops : Ops s) (moved : step s a = some s') : Receives s' := by
  cases ioMoved_of_step moved with
  | kept coroutine awaiting received =>
    constructor
    · simpa only [coroutine,awaiting,received] using h.once
    · simpa only [coroutine,received] using h.unawaited
  | took handle entry r waits coroutine awaiting received => exact h.took ops waits coroutine awaiting received
  | began left handle ptr pc lives bare coroutine awaiting received =>
    exact h.began ops pc lives bare coroutine awaiting received

/-- Without an operation and with an empty queue nobody awaits one. -/
theorem nobody_awaits (ops : Ops s) (counters : Counters s) (reaps : Reaps s) (io : s.emptyIo = true) (queue : s.taskQueue = [])
    (t : Coro) : s.awaiting t = none := by
  obtain ⟨quiet,bare⟩ := (counters.empty reaps).mp io
  cases waits : s.awaiting t with
  | none => rfl
  | some entry =>
    obtain ⟨lives,made,_⟩ := ops.frame t entry waits
    obtain ⟨o,created,_⟩ := ops.infos _ lives
    rw [made] at created
    have finished := (ops.empty quiet).mp bare entry.op (List.getElem?_eq_some_iff.mp created).1
    have queued := List.count_pos_iff.mpr finished
    rw [← ops.pushed t entry waits,queue] at queued
    contradiction

theorem Leaves.step {a : Action Coro} (h : Leaves s) (ops : Ops s) (counters : Counters s) (reaps : Reaps s)
    (moved : step s a = some s') : Leaves s' := by
  have io := h.io
  cases a with
  | step =>
    simp only [Context.step] at moved
    cases pc : s.pc with
    | emptyWaitWork =>
      simp only [Context.advance,pc,Option.some.injEq] at moved
      subst moved
      refine ⟨fun here => ?_,fun here => ?_⟩
      · dsimp only at here
        split at here
        next idle => exact idle.2
        next => simp [Pc.leaves] at here
      · dsimp only at here
        split at here <;> contradiction
    | ready =>
      have bare := io (by rw [pc]; rfl)
      simp only [Context.advance,pc,Option.some.injEq] at moved
      subst moved
      refine ⟨fun _ => bare,fun here => ?_⟩
      dsimp only at here
      split at here
      next queue =>
        intro t
        exact nobody_awaits (s := s) ops counters reaps bare queue t
      next => contradiction
    | exec left =>
      cases left with
      | zero =>
        simp only [Context.advance,pc,Option.some.injEq] at moved
        subst moved
        constructor <;> simp [Pc.leaves]
      | succ left =>
        simp only [Context.advance,pc] at moved
        split at moved
        next => contradiction
        next =>
          cases moved
          constructor <;> simp [Pc.leaves]
    | _ =>
      simp only [Context.advance,pc] at moved
      repeat' split at moved
      all_goals cases moved
      all_goals constructor
      all_goals
        intro here
        dsimp only at here
        simp [Pc.leaves] at here
  | io type data ptr =>
    simp only [Context.step] at moved
    split at moved
    next left handle pc =>
      split at moved
      next =>
        cases moved
        constructor <;> simp [pc,Pc.leaves]
      next => contradiction
    next => contradiction
  | accept | submitSelf | coAwait | suspend =>
    simp only [Context.step] at moved
    repeat' split at moved
    all_goals cases moved
    all_goals constructor
    all_goals
      intro here
      simp [Pc.leaves] at here
  | _ =>
    simp only [Context.step] at moved
    repeat' split at moved
    all_goals cases moved
    all_goals exact ⟨h.io,h.awaiting⟩

end

structure Tracked (s : State Coro) : Prop where
  counters : Counters s
  ops : Ops s
  reaps : Reaps s
  null : Null s
  receives : Receives s
  leaves : Leaves s

theorem fresh_tracked (s : State Coro) (fresh : Fresh s) : Tracked s := by
  exact ⟨fresh_counters s fresh,fresh_ops s fresh,fun here => by simp [fresh.pc,Pc.reaping] at here,by simp [Null,fresh.pc],
    fresh_receives fresh,fresh_leaves fresh⟩

theorem Tracked.step {s s' : State Coro} {a : Action Coro} (tracked : Tracked s) (undisturbed : Undisturbed s a)
    (moved : step s a = some s') : Tracked s' := by
  obtain ⟨counters,ops,reaps,null,receives,leaves⟩ := tracked
  exact ⟨counters.step moved,ops.step counters undisturbed moved,reaps.step moved,null.step ops moved,receives.step ops moved,
    leaves.step ops counters reaps moved⟩

/-- No operation is lost or completed twice, its coroutine gets the result once, and
the worker does not leave before. -/
structure HandsOver (s : State Coro) : Prop where
  completes : CompletesOnce s
  receives : Receives s
  returned : s.pc = .returned → ∀ k, k < s.operations.length → (s.received.map Prod.fst).count k = 1

theorem Tracked.handsOver {s : State Coro} (tracked : Tracked s) : HandsOver s := by
  obtain ⟨counters,ops,reaps,null,receives,leaves⟩ := tracked
  refine ⟨completesOnce_of counters ops reaps null,receives,fun left k created => ?_⟩
  obtain ⟨quiet,bare⟩ := (counters.empty reaps).mp (leaves.io (by rw [left]; rfl))
  obtain ⟨c,inside,rfl⟩ := List.mem_map.mp ((ops.empty quiet).mp bare k created)
  obtain ⟨_,_,_,_,known,_⟩ := ops.done c inside
  have own := receives.once _ _ known
  rw [leaves.awaiting left] at own
  simpa using own

end TinyCoro.Context
