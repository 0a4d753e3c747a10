import TinyCoro.Comp.MutexMoves

/-! The invariant of the mutex and the condition variables over whole runs. -/
namespace TinyCoro.Mutex
open Library

variable {Coro Ctx Cv Shared : Type} [DecidableEq Coro] [DecidableEq Ctx] [DecidableEq Cv]

section
variable {s s' : State Coro Ctx Cv Shared} {h : Holder Coro} {g : Lists Coro Cv} {t : Coro}

omit [DecidableEq Coro] [DecidableEq Ctx] [DecidableEq Cv] in
theorem holding_of_reversing {pc : Pc Cv} (turns : pc.reversing = true ∨ pc.refilling = true) : pc.holding = true := by
  cases pc <;> simp_all [Pc.reversing,Pc.refilling,Pc.holding]

omit [DecidableEq Coro] [DecidableEq Ctx] [DecidableEq Cv] in
theorem Owned.others (owned : Owned s h) (holding : (s.pc t).holding = true) (u : Coro) (other : u ≠ t) :
    (s.pc u).reversing = false ∧ (s.pc u).refilling = false := by
  constructor
  · by_contra turns
    exact other (owned.alone (holding_of_reversing (.inl (by simpa using turns))) holding)
  · by_contra turns
    exact other (owned.alone (holding_of_reversing (.inr (by simpa using turns))) holding)

omit [DecidableEq Ctx] [DecidableEq Cv] in
theorem Owned.quietly (owned : Owned s h) {q : Pc Cv} (pc : s.pc t = q) (u : Coro)
    (holding : q.holding = true := by rfl) (whole : q.reversing = false := by rfl) : (s.pc u).reversing = false := by
  by_cases same : u = t
  · rw [same,pc,whole]
  · exact (owned.others (by rw [pc,holding]) u same).1

theorem Tracked.advance (tracked : Tracked s g) (owned : Owned s h) (moved : advance s t = some s') :
    Tracked s' (g.after s (.step t)) := by
  cases pc : s.pc t with
  | idle | suspended self | aborted => simp [Mutex.advance,pc] at moved
  | registerWait self =>
    simp only [Mutex.advance,pc,Option.some.injEq] at moved
    subst moved
    simp only [Lists.after,pc]
    exact tracked.quiet pc rfl rfl rfl rfl rfl rfl rfl rfl rfl rfl (fun _ _ => rfl) (by simp) rfl rfl rfl rfl rfl
      (by simp [Pc.refilling]) (.inl rfl) (.inl rfl) (.inl rfl) (by simp [Pc.written])
  | loadState self waker =>
    simp only [Mutex.advance,pc,Option.some.injEq] at moved
    subst moved
    simp only [Lists.after,pc]
    refine tracked.quiet pc rfl rfl rfl rfl rfl rfl rfl rfl rfl rfl ?_ (by simp) ?_ rfl ?_ rfl rfl (by simp [Pc.refilling])
      (.inl rfl) (.inr rfl) (.inr (.inl rfl)) ?_
    · exact fun a other => Function.update_of_ne (by rintro rfl; exact other rfl) ..
    · cases waker <;> rfl
    · cases waker <;> rfl
    · rintro a n ⟨⟩
      exact Function.update_self ..
  | compareExchange self state waker =>
    simp only [Mutex.advance,pc] at moved
    split at moved
    next same =>
      subst same
      cases here : s.state with
      | nolocked =>
        simp only [here] at moved
        cases moved
        simp only [Lists.after,pc,here]
        cases waker with
        | none =>
          exact tracked.quiet pc rfl rfl rfl rfl rfl rfl (by rw [here]; rfl) rfl rfl rfl (fun _ _ => rfl) (by simp) rfl rfl rfl rfl rfl
            (by simp [Pc.refilling]) (.inl rfl) (.inl rfl) (.inl rfl) (by simp [Pc.written])
        | some caller =>
          exact tracked.quiet pc rfl rfl rfl rfl rfl rfl (by rw [here]; rfl) rfl rfl rfl (fun _ _ => rfl) (by simp) rfl rfl rfl rfl rfl
            (by simp [Pc.refilling]) (.inl rfl) (.inl rfl) (.inr (.inr ⟨rfl,.inr rfl⟩)) (by simp [Pc.written])
      | locked head =>
        simp only [here] at moved
        cases moved
        simp only [Lists.after,pc,here,ite_true]
        cases waker with
        | none =>
          exact tracked.enqueue (by rw [pc,here]; rfl) here (by rw [pc]; rfl) rfl (by rw [pc]; rfl) rfl (by rw [pc]; rfl) rfl
            rfl rfl rfl rfl (by simp [pc])
        | some caller =>
          exact tracked.enqueue (by rw [pc,here]; rfl) here (by rw [pc,finish_self]; rfl) (finish_hand _)
            (by rw [pc,finish_detached]; rfl) (finish_reversing _) (by rw [pc]; rfl) (finish_refilling _)
            (finish_registering _) (finish_waker _) (finish_frame _) (finish_written _) (by simp [pc])
    next other =>
      cases moved
      have same : g.after s (.step t) = g := by
        simp only [Lists.after,pc]
        cases state with
        | nolocked => rfl
        | locked head => exact if_neg other
      rw [same]
      refine tracked.quiet pc rfl rfl rfl rfl rfl rfl rfl rfl rfl rfl (fun _ _ => rfl) (by simp) ?_ rfl ?_ rfl rfl
        (by simp [Pc.refilling]) (.inl rfl) (.inr rfl) (.inr (.inl rfl)) (by simp [Pc.written])
      all_goals cases waker <;> rfl
  | awaitResume self =>
    simp only [Mutex.advance,pc,Option.some.injEq] at moved
    subst moved
    simp only [Lists.after,pc]
    exact tracked.destroy owned pc rfl
  | unlock caller =>
    have locked := owned.locked (t := t) (by rw [pc]; rfl)
    simp only [Mutex.advance,pc,Option.some.injEq,if_neg locked] at moved
    subst moved
    simp only [Lists.after,pc]
    exact tracked.quiet pc rfl rfl rfl rfl rfl rfl rfl rfl rfl rfl (fun _ _ => rfl) (by simp) rfl rfl rfl rfl rfl
      (by simp [Pc.refilling]) (.inl rfl) (.inl rfl) (.inr (.inr ⟨rfl,.inl rfl⟩)) (by simp [Pc.written])
  | unlockHead caller =>
    have holding : (s.pc t).holding = true := by rw [pc]; rfl
    cases head : s.resumeListHead with
    | none =>
      simp only [Mutex.advance,pc,head,Option.some.injEq] at moved
      subst moved
      simp only [Lists.after,pc,head]
      exact tracked.quiet pc rfl rfl rfl rfl rfl rfl rfl rfl rfl rfl (fun _ _ => rfl) (by simp) rfl rfl rfl rfl rfl
        (fun _ => head) (.inl rfl) (.inl rfl) (.inr (.inr ⟨rfl,.inl rfl⟩)) (by simp [Pc.written])
    | some toResume =>
      simp only [Mutex.advance,pc,head,Option.some.injEq] at moved
      subst moved
      simp only [Lists.after,pc,head]
      have first := tracked.linked.resumeList fun u => owned.quietly pc u
      rw [head] at first
      exact tracked.pop first (by rw [pc]; rfl) holding (by rw [pc]; rfl) (by rw [pc]; rfl) (by rw [pc]; rfl)
        (by simp [pc]) (owned.others holding)
  | unlockCompareExchange caller =>
    simp only [Mutex.advance,pc] at moved
    simp only [Lists.after,pc]
    split at moved
    next bare =>
      cases moved
      exact tracked.quiet pc rfl rfl rfl rfl rfl rfl (by rw [bare]; rfl) rfl rfl rfl (fun _ _ => rfl) (by simp)
        (finish_self _) (finish_hand _) (finish_detached _) (finish_reversing _) rfl (by simp) (.inl (finish_registering _))
        (.inl (finish_waker _)) (.inl (finish_frame _)) (by simp)
    next waiters =>
      cases moved
      exact tracked.quiet pc rfl rfl rfl rfl rfl rfl rfl rfl rfl rfl (fun _ _ => rfl) (by simp) rfl rfl rfl rfl rfl
        (fun _ => tracked.linked.refilling t (by rw [pc]; rfl)) (.inl rfl) (.inl rfl) (.inr (.inr ⟨rfl,.inl rfl⟩))
        (by simp [Pc.written])
  | unlockExchange caller =>
    have holding : (s.pc t).holding = true := by rw [pc]; rfl
    have locked := owned.locked holding
    have waiters := (owned.exchanging t (by rw [pc]; rfl)).2
    simp only [Mutex.advance,pc] at moved
    simp only [Lists.after,pc]
    cases state : s.state with
    | nolocked => exact absurd state locked
    | locked head =>
      cases head with
      | none => exact absurd state waiters
      | some awaiter =>
        simp only [state,Option.some.injEq] at moved
        subst moved
        exact tracked.exchange pc state (owned.others holding)
  | unlockReverse awaiter toResume caller =>
    simp only [Mutex.advance,pc,Option.some.injEq] at moved
    subst moved
    simp only [Lists.after,pc]
    exact tracked.turn pc (owned.others (by rw [pc]; rfl))
  | unlockPop toResume caller =>
    simp only [Mutex.advance,pc,Option.some.injEq] at moved
    subst moved
    simp only [Lists.after,pc]
    exact tracked.pop (tracked.linked.pop t toResume caller pc) (by rw [pc]; rfl) (by rw [pc]; rfl) (by rw [pc]; rfl)
      (by rw [pc]; rfl) (by rw [pc]; rfl) (by simp [pc]) (owned.others (by rw [pc]; rfl))
  | resume self caller =>
    simp only [Mutex.advance,pc] at moved
    simp only [Lists.after,pc]
    split at moved
    next plain =>
      cases moved
      exact tracked.quiet pc rfl rfl rfl rfl rfl rfl rfl rfl rfl rfl (fun _ _ => rfl) (by simp) rfl rfl rfl rfl rfl
        (by simp [Pc.refilling]) (.inl rfl) (.inl rfl) (.inr (.inr ⟨rfl,.inl rfl⟩)) (by simp [Pc.written])
    next cv cond wait =>
      cases moved
      split
      next =>
        exact tracked.quiet pc rfl rfl rfl rfl rfl rfl rfl rfl rfl rfl (fun _ _ => rfl) (by simp) rfl rfl rfl rfl rfl
          (by simp [Pc.refilling]) (.inl rfl) (.inl rfl) (.inr (.inr ⟨rfl,.inl rfl⟩)) (by simp [Pc.written])
      next =>
        refine tracked.goto (t := t) rfl rfl rfl rfl rfl rfl rfl rfl rfl rfl (fun _ _ => rfl) (by simp [pc]) (by rw [pc]; rfl)
          (by rw [pc]; rfl) (by rw [pc]; rfl) rfl (by rw [pc]; rfl) (by simp [Pc.refilling]) ?_ (by simp [Pc.waker]) ?_
          (by simp [Pc.written])
        · rintro a k f ⟨⟩
          exact ⟨⟨cond,wait⟩,.inr ⟨caller,rfl⟩⟩
        · rintro a f ⟨⟩ _
          exact tracked.placed.live_of_hand (t := t) (by rw [pc]; rfl)
  | submitTask self caller =>
    simp only [Mutex.advance,pc,Option.some.injEq] at moved
    subst moved
    simp only [Lists.after,pc]
    exact tracked.submit owned pc
  | cvAwaitSuspend self =>
    simp only [Mutex.advance,pc] at moved
    simp only [Lists.after,pc]
    split at moved
    next => contradiction
    next cv cond wait =>
      cases moved
      split
      next =>
        exact tracked.quiet pc rfl rfl rfl rfl rfl rfl rfl rfl rfl rfl (fun _ _ => rfl) (by simp) rfl rfl rfl rfl rfl
          (by simp [Pc.refilling]) (.inl rfl) (.inl rfl) (.inl rfl) (by simp [Pc.written])
      next =>
        refine tracked.goto (t := t) rfl rfl rfl rfl rfl rfl rfl rfl rfl rfl (fun _ _ => rfl) (by simp [pc]) (by rw [pc]; rfl)
          (by rw [pc]; rfl) (by rw [pc]; rfl) rfl (by rw [pc]; rfl) (by simp [Pc.refilling]) ?_ (by simp [Pc.waker]) ?_
          (by simp [Pc.written])
        · rintro a k f ⟨⟩
          exact ⟨⟨cond,wait⟩,.inl rfl⟩
        · rintro a f ⟨⟩
  | cvRegisterWait self cv caller =>
    simp only [Mutex.advance,pc,Option.some.injEq] at moved
    subst moved
    simp only [Lists.after,pc]
    refine tracked.quiet pc rfl rfl rfl rfl rfl rfl rfl rfl rfl rfl ?_ (by simp) rfl rfl rfl rfl rfl
      (by simp [Pc.refilling]) (.inr rfl) (.inl rfl) (.inr (.inr ⟨rfl,.inl rfl⟩)) ?_
    · exact fun a other => Function.update_of_ne (by rintro rfl; exact other rfl) ..
    · rintro a n ⟨⟩
      exact Function.update_self ..
  | cvLock self cv caller =>
    simp only [Mutex.advance,pc] at moved
    simp only [Lists.after,pc]
    split at moved
    next => contradiction
    next =>
      cases moved
      refine tracked.quiet pc rfl rfl rfl rfl rfl rfl rfl rfl rfl rfl (fun _ _ => rfl) (by simp) rfl rfl rfl rfl rfl
        (by simp [Pc.refilling]) (.inr rfl) (.inl rfl) (.inr (.inr ⟨rfl,.inl rfl⟩)) ?_
      rintro a n ⟨⟩
      exact tracked.placed.written t self none (by rw [pc]; rfl)
  | cvLink self cv caller =>
    have grown := tracked.link pc moved
    simp only [Lists.after,pc]
    exact grown
  | cvUnlock self cv caller =>
    simp only [Mutex.advance,pc,Option.some.injEq] at moved
    subst moved
    simp only [Lists.after,pc]
    exact tracked.quiet pc rfl rfl rfl rfl rfl rfl rfl rfl rfl rfl (fun _ _ => rfl) (by simp) rfl rfl rfl rfl rfl
      (by simp [Pc.refilling]) (.inl rfl) (.inl rfl) (.inr (.inr ⟨rfl,.inl rfl⟩)) (by simp [Pc.written])
  | oneTake cv =>
    cases head : s.head cv with
    | none =>
      simp only [Mutex.advance,pc,head,Option.some.injEq] at moved
      subst moved
      simp only [Lists.after,pc,head]
      exact tracked.quiet pc rfl rfl rfl rfl rfl rfl rfl rfl rfl rfl (fun _ _ => rfl) (by simp) rfl rfl rfl rfl rfl
        (by simp [Pc.refilling]) (.inl rfl) (.inl rfl) (.inl rfl) (by simp [Pc.written])
    | some cur =>
      simp only [Mutex.advance,pc,head,Option.some.injEq] at moved
      subst moved
      simp only [Lists.after,pc,head]
      exact tracked.takeOne pc head
  | oneUnlock cv cur =>
    simp only [Mutex.advance,pc,Option.some.injEq] at moved
    subst moved
    simp only [Lists.after,pc]
    cases cur with
    | none =>
      exact tracked.quiet pc rfl rfl rfl rfl rfl rfl rfl rfl rfl rfl (fun _ _ => rfl) (by simp) rfl rfl rfl rfl rfl
        (by simp [Pc.refilling]) (.inl rfl) (.inl rfl) (.inl rfl) (by simp [Pc.written])
    | some self =>
      refine tracked.goto (t := t) rfl rfl rfl rfl rfl rfl rfl rfl rfl rfl (fun _ _ => rfl) (by simp [pc]) (by rw [pc]; rfl)
        (by rw [pc]; rfl) (by rw [pc]; rfl) rfl (by rw [pc]; rfl) (by simp [Pc.refilling]) (by simp [Pc.registering]) ?_ ?_
        (by simp [Pc.written])
      · rintro f ⟨⟩; rfl
      · rintro a f ⟨⟩
  | allTake cv =>
    simp only [Mutex.advance,pc,Option.some.injEq] at moved
    subst moved
    simp only [Lists.after,pc]
    exact tracked.takeAll pc
  | allLoop cv curHead =>
    cases curHead with
    | none =>
      simp only [Mutex.advance,pc,Option.some.injEq] at moved
      subst moved
      simp only [Lists.after,pc]
      exact tracked.quiet pc rfl rfl rfl rfl rfl rfl rfl rfl rfl rfl (fun _ _ => rfl) (by simp) rfl rfl rfl rfl rfl
        (by simp [Pc.refilling]) (.inl rfl) (.inl rfl) (.inl rfl) (by simp [Pc.written])
    | some curHead =>
      simp only [Mutex.advance,pc,Option.some.injEq] at moved
      subst moved
      simp only [Lists.after,pc]
      exact tracked.takeNext pc
  | oneLock cv | allLock cv =>
    simp only [Mutex.advance,pc] at moved
    simp only [Lists.after,pc]
    split at moved
    next => contradiction
    next =>
      cases moved
      exact tracked.quiet pc rfl rfl rfl rfl rfl rfl rfl rfl rfl rfl (fun _ _ => rfl) (by simp) rfl rfl rfl rfl rfl
        (by simp [Pc.refilling]) (.inl rfl) (.inl rfl) (.inl rfl) (by simp [Pc.written])
  | allUnlock cv curHead =>
    simp only [Mutex.advance,pc,Option.some.injEq] at moved
    subst moved
    simp only [Lists.after,pc]
    exact tracked.quiet pc rfl rfl rfl rfl rfl rfl rfl rfl rfl rfl (fun _ _ => rfl) (by simp) rfl rfl rfl rfl rfl
      (by simp [Pc.refilling]) (.inl rfl) (.inl rfl) (.inl rfl) (by simp [Pc.written])

theorem Tracked.step {a : Action Coro Ctx Cv Shared} (tracked : Tracked s g) (owned : Owned s h)
    (moved : step s a = some s') : Tracked s' (g.after s a) := by
  cases a with
  | step t => exact tracked.advance owned moved
  | lock t self x =>
    simp only [Mutex.step] at moved
    split at moved
    next pc =>
      split at moved
      next => contradiction
      next free =>
        cases moved
        exact tracked.construct (by simpa using free) pc rfl rfl rfl rfl rfl rfl rfl rfl rfl
    next => contradiction
  | wait t self x cv cond =>
    simp only [Mutex.step] at moved
    split at moved
    next pc =>
      split at moved
      next free =>
        cases moved
        exact tracked.construct free.2 pc rfl rfl rfl rfl rfl rfl rfl rfl rfl
      next => contradiction
    next => contradiction
  | tryLock t =>
    simp only [Mutex.step] at moved
    split at moved
    next pc =>
      split at moved
      next free =>
        cases moved
        exact tracked.quiet pc (Function.update_eq_self_iff.mpr pc.symm).symm rfl rfl rfl rfl rfl (by rw [free]; rfl) rfl rfl rfl
          (fun _ _ => rfl) (by simp) rfl rfl rfl rfl rfl (by simp [Pc.refilling]) (.inl rfl) (.inl rfl) (.inl rfl)
          (by simp [Pc.written])
      next => cases moved; exact tracked
    next => contradiction
  | unlock t =>
    simp only [Mutex.step] at moved
    split at moved
    next pc =>
      split at moved
      next =>
        cases moved
        refine tracked.goto (t := t) rfl rfl rfl rfl rfl rfl rfl rfl rfl rfl (fun _ _ => rfl) (by simp [pc]) (by rw [pc]; rfl)
          (by rw [pc]; rfl) (by rw [pc]; rfl) rfl (by rw [pc]; rfl) (by simp [Pc.refilling]) (by simp [Pc.registering])
          (by simp [Pc.waker]) ?_ (by simp [Pc.written])
        rintro a f ⟨⟩
      next => contradiction
    next => contradiction
  | notifyOne t cv | notifyAll t cv =>
    simp only [Mutex.step] at moved
    split at moved
    next pc =>
      cases moved
      exact tracked.quiet pc rfl rfl rfl rfl rfl rfl rfl rfl rfl rfl (fun _ _ => rfl) (by simp) rfl rfl rfl rfl rfl
        (by simp [Pc.refilling]) (.inl rfl) (.inl rfl) (.inl rfl) (by simp [Pc.written])
    next => contradiction
  | modify t shared =>
    simp only [Mutex.step] at moved
    split at moved
    next pc =>
      split at moved
      next =>
        cases moved
        exact tracked.quiet pc (Function.update_eq_self_iff.mpr pc.symm).symm rfl rfl rfl rfl rfl rfl rfl rfl rfl
          (fun _ _ => rfl) (by simp) rfl rfl rfl rfl rfl (by simp [Pc.refilling]) (.inl rfl) (.inl rfl) (.inl rfl)
          (by simp [Pc.written])
      next => contradiction
    next => contradiction
  | spurious t =>
    simp only [Mutex.step] at moved
    split at moved
    next self state waker pc =>
      cases moved
      refine tracked.quiet pc rfl rfl rfl rfl rfl rfl rfl rfl rfl rfl (fun _ _ => rfl) (by simp) ?_ rfl ?_ rfl rfl
        (by simp [Pc.refilling]) (.inl rfl) (.inr rfl) (.inr (.inl rfl)) (by simp [Pc.written])
      all_goals cases waker <;> rfl
    next => contradiction
  | exec x =>
    cases queue : s.contexts.taskQueue x with
    | nil => simp [Mutex.step,queue] at moved
    | cons front rest =>
      simp only [Mutex.step,queue] at moved
      cases pc : s.pc front with
      | suspended self =>
        simp only [pc,Option.some.injEq] at moved
        subst moved
        simp only [Lists.after,queue,pc]
        exact tracked.exec owned queue pc
      | _ => simp [pc] at moved

end

theorem reachable_tracked (s : State Coro Ctx Cv Shared) (reachable : (machine Coro Ctx Cv Shared).Reachable s) :
    ∃ h g, Owned s h ∧ Tracked s g := by
  refine @Machine.Within.invariant _ _ _ _ (fun s => ∃ h g, Owned s h ∧ Tracked s g) ?_ ?_ s reachable
  · exact fun s fresh => ⟨.nobody,.initial,fresh_owned s fresh,⟨fresh_placed s fresh,fresh_linked s fresh⟩⟩
  · rintro s s' a ⟨h,g,owned,tracked⟩ _ moved
    exact ⟨h.after s a,g.after s a,owned.step moved,tracked.step owned moved⟩

end TinyCoro.Mutex
