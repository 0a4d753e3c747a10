import TinyCoro.Context.Burden
import TinyCoro.Context.Wakeup

/-! Where a worker can go no further: it has left `run`, an assertion has failed, or it is
blocked at the read of its eventfd and the kernel has completed all that it has accepted. -/
namespace TinyCoro.Context
open Library

variable {Coro : Type} [DecidableEq Coro]

/-- The tasks of the snapshot are in the queue. -/
def Held (s : State Coro) : Prop := ∀ left, s.pc.snapshot = some left → left ≤ s.taskQueue.length

structure Poised (s : State Coro) : Prop where
  counters : Counters s
  wakes : Wakes s
  held : Held s

/-- The worker, its coroutine or the kernel can take a step without new work. -/
def Goes (s : State Coro) : Prop := ∃ a, settles a = true ∧ (step s a).isSome = true

section
variable {s s' : State Coro}

omit [DecidableEq Coro] in
theorem Held.keep (held : Held s) (queue : s.taskQueue.length ≤ s'.taskQueue.length)
    (snapshot : ∀ left, s'.pc.snapshot = some left → s.pc.snapshot = some left ∨ left = 0) : Held s' := by
  intro left here
  rcases snapshot left here with before | none
  · exact Nat.le_trans (held left before) queue
  · omega

theorem Held.advance (held : Held s) (moved : Context.advance s = some s') : Held s' := by
  cases pc : s.pc with
  | processWork =>
    simp only [Context.advance,pc,Option.some.injEq] at moved
    subst moved
    intro left here
    simp only [Pc.snapshot,Option.some.injEq] at here
    exact here ▸ Nat.le_refl _
  | exec left =>
    cases left with
    | zero =>
      simp only [Context.advance,pc,Option.some.injEq] at moved
      subst moved
      exact held.keep (Nat.le_refl _) (by simp [Pc.snapshot])
    | succ left =>
      have enough := held (left+1) (by rw [pc]; rfl)
      simp only [Context.advance,pc] at moved
      split at moved
      next => contradiction
      next handle rest queue =>
        cases moved
        intro left' here
        rw [queue] at enough
        simp only [Pc.snapshot,Option.some.injEq] at here
        simp only [List.length_cons] at enough ⊢
        omega
  | wakeSelf left handle =>
    simp only [Context.advance,pc,Option.ite_none_right_eq_some,Option.some.injEq] at moved
    obtain ⟨_,rfl⟩ := moved
    exact held.keep (Nat.le_refl _) (by simp [pc,Pc.snapshot])
  | handleCqe i cnt =>
    simp only [Context.advance,pc] at moved
    repeat' split at moved
    all_goals cases moved
    all_goals
      intro left here
      simp [Pc.snapshot] at here
  | _ =>
    simp only [Context.advance,pc] at moved
    repeat' split at moved
    all_goals cases moved
    all_goals exact held.keep (Nat.le_refl _) (by simp [Pc.snapshot])

theorem Held.step {a : Action Coro} (held : Held s) (moved : step s a = some s') : Held s' := by
  cases a with
  | step => exact held.advance moved
  | submitSelf t | coAwait ptr | suspend =>
    simp only [Context.step] at moved
    split at moved
    next left handle pc =>
      have enough := held left (by rw [pc]; rfl)
      repeat' split at moved
      all_goals cases moved
      all_goals
        intro left' here
        simp only [Pc.snapshot,Option.some.injEq] at here
        simp only [List.length_append]
        omega
    next => contradiction
  | io type data ptr =>
    simp only [Context.step] at moved
    repeat' split at moved
    all_goals cases moved
    all_goals exact held.keep (Nat.le_refl _) fun left here => .inl here
  | push t =>
    cases Option.some.inj moved
    exact held.keep (by simp) fun left here => .inl here
  | accept =>
    simp only [Context.step] at moved
    repeat' split at moved
    all_goals cases moved
    all_goals exact held.keep (Nat.le_refl _) (by simp [Pc.snapshot])
  | _ =>
    simp only [Context.step] at moved
    repeat' split at moved
    all_goals cases moved
    all_goals exact held.keep (Nat.le_refl _) fun left here => .inl here

theorem Poised.step {a : Action Coro} (poised : Poised s) (few : FewWrites s a) (moved : step s a = some s') : Poised s' := by
  obtain ⟨counters,wakes,held⟩ := poised
  exact ⟨counters.step moved,wakes.step counters few moved,held.step moved⟩

private theorem goes_on (advances : (Context.advance s).isSome = true) : Goes s := ⟨.step,rfl,advances⟩

/-- Outside its callback a worker goes on, unless it has left or has nothing to read. -/
theorem goes_of_worker (counters : Counters s) (held : Held s) (writable : s.pc.owesWake = true → s.canWrite taskFlag)
    (outside : s.pc ≠ .stopCb) (asserted : ∀ i cnt, s.pc ≠ .aborted i cnt) :
    s.pc = .returned ∨ s.pc = .waitEventfd ∧ s.efd = 0 ∨ Goes s := by
  cases pc : s.pc with
  | returned => exact .inl rfl
  | aborted i cnt => exact absurd pc (asserted i cnt)
  | stopCb => contradiction
  | waitEventfd =>
    by_cases silent : s.efd = 0
    · exact .inr (.inl ⟨rfl,silent⟩)
    · exact .inr (.inr (goes_on (by simp [Context.advance,pc,silent])))
  | running left handle => exact .inr (.inr ⟨.suspend,rfl,by simp [Context.step,pc]⟩)
  | doIoSubmit =>
    refine .inr (.inr ?_)
    by_cases submits : 0 < s.numIoWaitSubmit
    · -- the kernel may accept none
      exact ⟨.accept 0,rfl,by simp [Context.step,pc,submits]⟩
    · exact goes_on (by simp [Context.advance,pc,submits])
  | wakeSelf left handle | wakeUp i cnt => exact .inr (.inr (goes_on (by simp [Context.advance,pc,writable (by rw [pc]; rfl)])))
  | exec left =>
    refine .inr (.inr (goes_on ?_))
    cases left with
    | zero => simp [Context.advance,pc]
    | succ left =>
      have enough := held (left+1) (by rw [pc]; rfl)
      cases queue : s.taskQueue with
      | nil => simp [queue] at enough
      | cons handle rest => simp [Context.advance,pc,queue]
  | handleCqe i cnt =>
    refine .inr (.inr (goes_on ?_))
    by_cases more : i < cnt
    · have batch := counters.batch
      rw [pc] at batch
      have inside : i < s.cq.length := Nat.lt_of_lt_of_le more batch
      cases owner : (s.info s.cq[i].entry.userData).handle with
      | none => simp [Context.advance,pc,more,inside,owner]
      | some handle => simp [Context.advance,pc,more,inside,owner]
    · simp [Context.advance,pc,more]
  | _ => exact .inr (.inr (goes_on (by simp [Context.advance,pc])))

theorem goes_of_kernel (accepted : s.inKernel ≠ []) : Goes s := by
  cases entries : s.inKernel with
  | nil => contradiction
  | cons entry rest => exact ⟨.post [] rest entry 0,rfl,by simp [Context.step,entries]⟩

end
end TinyCoro.Context
