import TinyCoro.Library.Settling
import TinyCoro.Comp.CondVarSections

/-! The calls of the mutex and of its condition variables come to an end, in whatever
order their threads and the workers that resume them move: nobody waits for a spin lock for
good, and a compare-and-exchange fails only because another one has got on. -/
namespace TinyCoro.Mutex
open Library

def Pc.settled {Cv : Type} : Pc Cv → Bool
  | .idle | .suspended _ => true
  | _ => false

def Pc.takes {Cv : Type} : Pc Cv → Nat
  | .allLock _ | .allTake _ => 1
  | _ => 0

/-- The steps that are left at most, those for the awaiters in the lists and for further
tries of `register_lock` apart. -/
def Pc.effort {Cv : Type} (ready : List Addr) : Pc Cv → Nat
  | .idle | .aborted => 0
  | .awaitResume _ | .allLoop _ _ => 1
  | .suspended _ | .unlockPop _ _ | .allUnlock _ _ => 2
  | .submitTask _ _ => 3
  | .unlockReverse awaiter _ _ => 3 + ready.idxOf awaiter
  | .unlockExchange _ | .allTake _ => 3
  | .unlockCompareExchange _ | .allLock _ => 4
  | .unlockHead _ => 5
  | .unlock _ => 6
  | .cvUnlock _ _ _ => 7
  | .cvLink _ _ _ => 8
  | .cvLock _ _ _ => 9
  | .cvRegisterWait _ _ _ => 10
  | .resume _ _ | .cvAwaitSuspend _ => 11
  | .loadState _ _ | .compareExchange _ _ _ => 24
  | .registerWait _ | .oneUnlock _ _ => 25
  | .oneTake _ => 26
  | .oneLock _ => 27

def Pc.tries {Cv : Type} (state : AwaiterPtr) : Pc Cv → Nat
  | .loadState _ _ => 1
  | .compareExchange _ loaded _ => if state = loaded then 0 else 2
  | _ => 0

section
variable {Cv : Type} (f : Frame Cv)

private theorem finish_takes : f.finish.takes = 0 := by
  induction f with
  | resume _ _ ih => exact ih
  | _ => rfl

private theorem finish_effort (ready : List Addr) : f.finish.effort ready ≤ 2 := by
  induction f with
  | resume _ _ ih => exact ih
  | _ => simp [Frame.finish,Pc.effort]

end

variable {Coro Ctx Cv Shared : Type} [DecidableEq Coro] [DecidableEq Ctx] [DecidableEq Cv]

/-- A spin lock is held by a thread in its section, and a `cv_awaiter` awaits. -/
structure Held (s : State Coro Ctx Cv Shared) : Prop where
  lock : ∀ k, s.lock k = true → ∃ t, (s.pc t).spins = some k
  entered : ∀ t a, s.pc t = .cvAwaitSuspend a → s.kind a ≠ .lock

section
variable {s s' : State Coro Ctx Cv Shared} {h : Holder Coro} {g : Lists Coro Cv} {t : Coro}

theorem step_moves {a : Action Coro Ctx Cv Shared} (moved : step s a = some s') :
    ∃ t p, s'.pc = Function.update s.pc t p ∧ CondVar.Turn s s' t p := by
  by_cases own : ∃ t, a = .step t
  · obtain ⟨t,rfl⟩ := own
    obtain ⟨p,pc,turn,_⟩ := CondVar.advance_turn moved
    exact ⟨t,p,pc,turn⟩
  · obtain ⟨_,_,t,p,pc,turn,_⟩ := CondVar.step_turn (fun t same => own ⟨t,same⟩) moved
    exact ⟨t,p,pc,turn⟩

omit [DecidableEq Ctx] in
theorem Held.turn (held : Held s) {p : Pc Cv} (pc : s'.pc = Function.update s.pc t p) (turn : CondVar.Turn s s' t p) (k : Cv)
    (locked : s'.lock k = true) : ∃ u, (s'.pc u).spins = some k := by
  have stays : ∀ u, u ≠ t → (s.pc u).spins = some k → ∃ u, (s'.pc u).spins = some k := by
    intro u other spins
    refine ⟨u,?_⟩
    rw [pc,Function.update_of_ne other]
    exact spins
  have mine : s'.pc t = p := by rw [pc,Function.update_self]
  have before : s.lock k = true → ∃ u, (s.pc u).spins = some k := held.lock k
  cases turn with
  | keeps lock _ _ spins =>
    rw [lock] at locked
    obtain ⟨u,spin⟩ := before locked
    by_cases same : u = t
    · exact ⟨t,by rw [mine,spins,← same,spin]⟩
    · exact stays u same spin
  | calls cv lock _ outside _ =>
    rw [lock] at locked
    obtain ⟨u,spin⟩ := before locked
    refine stays u ?_ spin
    rintro rfl
    rw [outside] at spin
    contradiction
  | acquires cv calls _ lock after =>
    by_cases same : k = cv
    · exact ⟨t,by rw [mine,after,same]⟩
    · rw [lock,Function.update_of_ne same] at locked
      obtain ⟨u,spin⟩ := before locked
      refine stays u ?_ spin
      rintro rfl
      rw [CondVar.spins_of_locks calls] at spin
      contradiction
  | releases cv spins lock _ _ =>
    have other : k ≠ cv := by
      rintro rfl
      rw [lock,Function.update_self] at locked
      contradiction
    rw [lock,Function.update_of_ne other] at locked
    obtain ⟨u,spin⟩ := before locked
    refine stays u ?_ spin
    rintro rfl
    exact other (Option.some.inj (spin.symm.trans spins))

private theorem advance_kind (moved : advance s t = some s') : s'.kind = s.kind ∧ ∀ a, s'.pc t ≠ .cvAwaitSuspend a := by
  unfold advance at moved
  cases pc : s.pc t with
  | _ =>
    simp only [pc] at moved
    repeat' split at moved
    all_goals cases moved
    all_goals
      refine ⟨rfl,fun a here => ?_⟩
      simp only [State.goto,Function.update_self] at here
      revert here
      try split
      all_goals first | exact finish_not_cvAwaitSuspend _ a | simp

omit [DecidableEq Ctx] [DecidableEq Cv] in
theorem Held.stays {p : Pc Cv} (held : Held s) (pc : s'.pc = Function.update s.pc t p) (kind : s'.kind = s.kind)
    (other : ∀ a, p ≠ .cvAwaitSuspend a) (u : Coro) (a : Addr) (here : s'.pc u = .cvAwaitSuspend a) : s'.kind a ≠ .lock := by
  rcases pc_moved pc u with ⟨_,now⟩ | ⟨_,now⟩
  · exact absurd (now.symm.trans here) (other a)
  · rw [kind]
    exact held.entered u a (now.symm.trans here)

omit [DecidableEq Ctx] [DecidableEq Cv] in
theorem Held.constructed {self : Addr} {x : Ctx} {k : Kind Cv Shared} {p : Pc Cv} (held : Held s) (tracked : Tracked s g)
    (free : s.live self = false) (mine : ∀ a, p = .cvAwaitSuspend a → a = self ∧ k ≠ .lock) (u : Coro) (a : Addr)
    (here : ((s.construct t self x k).goto t p).pc u = .cvAwaitSuspend a) :
    ((s.construct t self x k).goto t p).kind a ≠ .lock := by
  have kinds : ((s.construct t self x k).goto t p).kind = Function.update s.kind self k := rfl
  have moves : ((s.construct t self x k).goto t p).pc = Function.update s.pc t p := rfl
  rcases pc_moved moves u with ⟨_,now⟩ | ⟨_,now⟩
  · obtain ⟨rfl,wait⟩ := mine a (now.symm.trans here)
    rw [kinds,Function.update_self]
    exact wait
  · have before := now.symm.trans here
    have live := (tracked.placed.live u a (by rw [before]; rfl)).1
    have other : a ≠ self := by
      rintro rfl
      rw [free] at live
      contradiction
    rw [kinds,Function.update_of_ne other]
    exact held.entered u a before

theorem Held.step {a : Action Coro Ctx Cv Shared} (held : Held s) (tracked : Tracked s g) (moved : Mutex.step s a = some s') :
    Held s' := by
  refine ⟨fun k locked => ?_,?_⟩
  · obtain ⟨_,_,pc,turn⟩ := step_moves moved
    exact held.turn pc turn k locked
  · cases a with
    | step t =>
      obtain ⟨p,pc,_⟩ := CondVar.advance_turn moved
      obtain ⟨kind,other⟩ := advance_kind moved
      rw [pc,Function.update_self] at other
      exact held.stays pc kind other
    | lock t self x =>
      simp only [Mutex.step] at moved
      split at moved
      next =>
        split at moved
        next => contradiction
        next free =>
          cases moved
          exact held.constructed tracked (by simpa using free) (by simp)
      next => contradiction
    | wait t self x cv cond =>
      simp only [Mutex.step] at moved
      split at moved
      next =>
        split at moved
        next free =>
          cases moved
          refine fun u a here => held.constructed tracked (t := t) (x := x) (k := .wait cv cond) free.2 ?_ u a here
          simp
        next => contradiction
      next => contradiction
    | tryLock t | modify t shared =>
      simp only [Mutex.step] at moved
      repeat' split at moved
      all_goals cases moved
      all_goals exact held.entered
    | unlock t | notifyOne t cv | notifyAll t cv | spurious t =>
      simp only [Mutex.step] at moved
      repeat' split at moved
      all_goals cases moved
      all_goals exact held.stays rfl rfl (by simp)
    | exec x =>
      simp only [Mutex.step] at moved
      repeat' split at moved
      all_goals cases moved
      exact held.stays rfl rfl (by simp)

theorem reachable_held (s : State Coro Ctx Cv Shared) (reachable : (machine Coro Ctx Cv Shared).Reachable s) : Held s := by
  induction reachable with
  | start fresh =>
    obtain ⟨_,_,_,lock,_,_,pc,_⟩ := fresh
    exact ⟨fun k locked => by simp [lock k] at locked,fun t a here => by simp [pc t] at here⟩
  | step before _ moved ih =>
    obtain ⟨_,_,inv⟩ := reachable_invariant _ before
    exact ih.step inv.tracked moved

omit [DecidableEq Coro] [DecidableEq Ctx] [DecidableEq Cv] in
/-- Where a thread may be inside a call without a step to take. -/
def Waits (s : State Coro Ctx Cv Shared) (t : Coro) : Prop := ∃ k, CondVar.locks (s.pc t) = some k ∧ s.lock k = true

/-- Only a spin lock that is held keeps a thread inside a call from its next step. -/
theorem advance_none (owned : Owned s h) (held : Held s) (busy : (s.pc t).settled = false) (stuck : advance s t = none) :
    Waits s t := by
  unfold advance at stuck
  cases pc : s.pc t with
  | idle | suspended self => simp [pc,Pc.settled] at busy
  | aborted => exact absurd pc (owned.exchanging t (by rw [pc]; rfl)).1
  | cvAwaitSuspend self =>
    have wait := held.entered t self pc
    cases kind : s.kind self with
    | lock => exact absurd kind wait
    | wait cv cond => simp [pc,kind] at stuck
  | cvLock self cv caller | oneLock cv | allLock cv =>
    refine ⟨cv,by rw [pc]; rfl,?_⟩
    by_contra free
    simp [pc,free] at stuck
  | _ =>
    simp only [pc] at stuck
    repeat' split at stuck
    all_goals contradiction

/-- While a thread is inside a call, some thread can take a step. -/
theorem some_moves (inv : Invariant s h g) (held : Held s) (busy : (s.pc t).settled = false) : ∃ u, advance s u ≠ none := by
  by_contra stuck
  have stuck : ∀ u, advance s u = none := fun u => by_contra fun moves => stuck ⟨u,moves⟩
  obtain ⟨k,_,locked⟩ := advance_none inv.owned held busy (stuck t)
  -- the thread in the section waits for no lock
  obtain ⟨u,spins⟩ := held.lock k locked
  have inside : (s.pc u).settled = false := by
    cases pc : s.pc u with
    | idle | suspended a => simp [pc,Pc.spins] at spins
    | _ => rfl
  obtain ⟨_,locks,_⟩ := advance_none inv.owned held inside (stuck u)
  rw [CondVar.locks_of_spins spins] at locks
  contradiction

/-- The work on the awaiters that wait for the mutex. -/
def Lists.work (g : Lists Coro Cv) : Nat := 20 * g.ready.length + 21 * g.chain.length

def Lists.share (g : Lists Coro Cv) (pc : Coro → Pc Cv) (t : Coro) : Nat := 24 * (g.snapshot t).length + (pc t).effort g.ready

inductive Gets (s s' : State Coro Ctx Cv Shared) (g g' : Lists Coro Cv) (t : Coro) : Prop
  | takes (less : (s'.pc t).takes < (s.pc t).takes)
  | works (same : (s'.pc t).takes = (s.pc t).takes) (less : g'.work + g'.share s'.pc t < g.work + g.share s.pc t)
  | tries (same : (s'.pc t).takes = (s.pc t).takes) (lists : g' = g) (state : s'.state = s.state)
      (effort : (s'.pc t).effort g.ready = (s.pc t).effort g.ready) (less : (s'.pc t).tries s.state < (s.pc t).tries s.state)

omit [DecidableEq Ctx] [DecidableEq Cv] in
theorem Gets.alone {g' : Lists Coro Cv} {p q : Pc Cv} (before : s.pc t = q) (pc : s'.pc = Function.update s.pc t p)
    (lists : g'.ready = g.ready ∧ g'.chain = g.chain ∧ g'.snapshot t = g.snapshot t) (same : p.takes = q.takes)
    (less : p.effort g.ready < q.effort g.ready) : Gets s s' g g' t := by
  refine .works ?_ ?_
  · rw [pc,Function.update_self,before,same]
  · simp only [Lists.work,Lists.share,pc,Function.update_self,before,lists]
    omega

omit [DecidableEq Ctx] [DecidableEq Cv] in
theorem Gets.first {g' : Lists Coro Cv} {p q : Pc Cv} {a : Addr} {rest : List Addr} (before : s.pc t = q)
    (pc : s'.pc = Function.update s.pc t p) (front : g.ready = a::rest) (ready : g'.ready = rest) (chain : g'.chain = g.chain)
    (snapshot : g'.snapshot t = g.snapshot t) (same : p.takes = q.takes) (less : p.effort rest < 20 + q.effort g.ready) :
    Gets s s' g g' t := by
  refine .works ?_ ?_
  · rw [pc,Function.update_self,before,same]
  · simp only [Lists.work,Lists.share,pc,Function.update_self,before,ready,chain,snapshot]
    rw [front] at less ⊢
    simp only [List.length_cons]
    omega

omit [DecidableEq Coro] [DecidableEq Ctx] [DecidableEq Cv] in
private theorem idxOf_before {l l' : List Addr} {a b : Addr} (member : b ∈ l) (absent : a ∉ l) : (l ++ l').idxOf b < (l ++ l').idxOf a := by
  rw [List.idxOf_append_of_mem member,List.idxOf_append_of_notMem absent]
  exact Nat.lt_add_right _ (List.idxOf_lt_length_of_mem member)

private theorem advance_gets (inv : Invariant s h g) (moved : advance s t = some s') : Gets s s' g (g.after s (.step t)) t := by
  have linked := inv.tracked.linked
  cases pc : s.pc t with
  | idle | suspended self | aborted => simp [advance,pc] at moved
  | registerWait self | awaitResume self | cvRegisterWait self cv caller | cvUnlock self cv caller | allUnlock cv cur =>
    simp only [advance,pc,Option.some.injEq] at moved
    subst moved
    simp only [Lists.after,pc]
    exact .alone pc rfl ⟨rfl,rfl,rfl⟩ rfl (by simp [Pc.effort])
  | loadState self waker =>
    simp only [advance,pc,Option.some.injEq] at moved
    subst moved
    simp only [Lists.after,pc]
    refine .tries ?_ rfl rfl ?_ ?_
    all_goals simp only [State.goto,Function.update_self,pc]
    · rfl
    · rfl
    · simp [Pc.tries]
  | compareExchange self state waker =>
    simp only [advance,pc] at moved
    split at moved
    next same =>
      subst same
      cases here : s.state with
      | nolocked =>
        simp only [here,Option.some.injEq] at moved
        subst moved
        simp only [Lists.after,pc,here]
        cases waker with
        | none => exact .alone pc rfl ⟨rfl,rfl,rfl⟩ rfl (by simp [Pc.effort])
        | some caller => exact .alone pc rfl ⟨rfl,rfl,rfl⟩ rfl (by simp [Pc.effort])
      | locked head =>
        simp only [here,Option.some.injEq] at moved
        subst moved
        simp only [Lists.after,pc,here,ite_true]
        -- the awaiter goes into the list of `m_state`
        have ends : ∀ p : Pc Cv, p.takes = 0 → p.effort g.ready ≤ 2 → Gets s { s.goto t p with state := .locked (some self) } g
            { g with chain := self::g.chain, place := Function.update g.place self .state } t := by
          intro p takes effort
          refine .works ?_ ?_
          · simp only [State.goto,Function.update_self,pc,takes]
            rfl
          · have cost : (s.pc t).effort g.ready = 24 := by rw [pc]; rfl
            simp only [Lists.work,Lists.share,State.goto,Function.update_self,cost,List.length_cons]
            omega
        cases waker with
        | none => exact ends _ rfl (by simp [Pc.effort])
        | some caller => exact ends _ (finish_takes caller) (finish_effort caller g.ready)
    next other =>
      cases moved
      have same : g.after s (.step t) = g := by
        simp only [Lists.after,pc]
        cases state with
        | nolocked => rfl
        | locked head => exact if_neg other
      rw [same]
      refine .tries ?_ rfl rfl ?_ ?_
      all_goals simp only [State.goto,Function.update_self,pc]
      · rfl
      · rfl
      · simp [Pc.tries,other]
  | unlock caller =>
    have locked := inv.owned.locked (t := t) (by rw [pc]; rfl)
    simp only [advance,pc,if_neg locked,Option.some.injEq] at moved
    subst moved
    simp only [Lists.after,pc]
    exact .alone pc rfl ⟨rfl,rfl,rfl⟩ rfl (by simp [Pc.effort])
  | unlockHead caller =>
    cases head : s.resumeListHead with
    | none =>
      simp only [advance,pc,head,Option.some.injEq] at moved
      subst moved
      simp only [Lists.after,pc,head]
      exact .alone pc rfl ⟨rfl,rfl,rfl⟩ rfl (by simp [Pc.effort])
    | some toResume =>
      simp only [advance,pc,head,Option.some.injEq] at moved
      subst moved
      simp only [Lists.after,pc,head]
      have chain := linked.resumeList fun u => inv.owned.quietly pc u
      rw [head] at chain
      obtain ⟨rest,front,_⟩ := Chain.some_iff.mp chain
      exact .first pc rfl front (by rw [front]; rfl) rfl rfl rfl (by simp [Pc.effort])
  | unlockCompareExchange caller =>
    simp only [advance,pc] at moved
    simp only [Lists.after,pc]
    split at moved
    next =>
      cases moved
      have few := finish_effort caller g.ready
      exact .alone pc rfl ⟨rfl,rfl,rfl⟩ (finish_takes caller) (few.trans_lt (by simp [Pc.effort]))
    next =>
      cases moved
      exact .alone pc rfl ⟨rfl,rfl,rfl⟩ rfl (by simp [Pc.effort])
  | unlockExchange caller =>
    -- the other state is that of a mutex without waiters
    obtain ⟨_,waited⟩ := inv.owned.exchanging t (by rw [pc]; rfl)
    have locked := inv.owned.locked (t := t) (by rw [pc]; rfl)
    have chain := linked.chain
    cases state : s.state with
    | nolocked => exact absurd state locked
    | locked head =>
      cases head with
      | none => exact absurd state waited
      | some awaiter =>
        simp only [advance,pc,state,Option.some.injEq] at moved
        subst moved
        simp only [Lists.after,pc]
        rw [state] at chain
        obtain ⟨rest,front,_⟩ := Chain.some_iff.mp chain
        have place : g.chain.reverse.idxOf awaiter < g.chain.length := by
          rw [← List.length_reverse]
          apply List.idxOf_lt_length_of_mem
          simp [front]
        refine .works ?_ ?_
        · simp only [State.goto,Function.update_self,pc]
          rfl
        · have cost : (s.pc t).effort g.ready = 3 := by rw [pc]; rfl
          simp only [Lists.work,Lists.share,State.goto,Function.update_self,cost,List.length_reverse,List.length_nil]
          simp only [Pc.effort]
          omega
  | unlockReverse awaiter toResume caller =>
    simp only [advance,pc,Option.some.injEq] at moved
    subst moved
    simp only [Lists.after,pc]
    obtain ⟨left,turned,chain,_,order⟩ := linked.reverse t awaiter toResume caller pc
    obtain ⟨rest,rfl,tail⟩ := Chain.some_iff.mp chain
    cases next : s.next awaiter with
    | none => exact .alone pc rfl ⟨rfl,rfl,rfl⟩ rfl (by simp only [Pc.effort]; omega)
    | some temp =>
      rw [next] at tail
      obtain ⟨later,rfl,_⟩ := Chain.some_iff.mp tail
      have nearer : g.ready.idxOf temp < g.ready.idxOf awaiter := by
        have distinct := chain.nodup
        rw [order,List.reverse_cons,List.append_assoc]
        apply idxOf_before
        · simp
        · simpa [and_comm] using (List.nodup_cons.mp distinct).1
      exact .alone pc rfl ⟨rfl,rfl,rfl⟩ rfl (by simp only [Pc.effort]; omega)
  | unlockPop toResume caller =>
    simp only [advance,pc,Option.some.injEq] at moved
    subst moved
    simp only [Lists.after,pc]
    obtain ⟨rest,front,_⟩ := Chain.some_iff.mp (linked.pop t toResume caller pc)
    exact .first pc rfl front (by rw [front]; rfl) rfl rfl rfl (by simp [Pc.effort])
  | resume self caller =>
    simp only [advance,pc] at moved
    simp only [Lists.after,pc]
    split at moved <;> cases moved
    · exact .alone pc rfl ⟨rfl,rfl,rfl⟩ rfl (by simp [Pc.effort])
    · refine .alone pc rfl ⟨rfl,rfl,rfl⟩ ?_ ?_
      · split <;> rfl
      · split <;> simp [Pc.effort]
  | submitTask self caller =>
    simp only [advance,pc,Option.some.injEq] at moved
    subst moved
    simp only [Lists.after,pc]
    have few := finish_effort caller g.ready
    exact .alone pc rfl ⟨rfl,rfl,rfl⟩ (finish_takes caller) (few.trans_lt (by simp [Pc.effort]))
  | cvAwaitSuspend self =>
    simp only [advance,pc] at moved
    simp only [Lists.after,pc]
    split at moved
    next => contradiction
    next =>
      cases moved
      refine .alone pc rfl ⟨rfl,rfl,rfl⟩ ?_ ?_
      · split <;> rfl
      · split <;> simp [Pc.effort]
  | cvLock self cv caller | oneLock cv | allLock cv =>
    simp only [advance,pc] at moved
    simp only [Lists.after,pc]
    split at moved
    next => contradiction
    next =>
      cases moved
      exact .alone pc rfl ⟨rfl,rfl,rfl⟩ rfl (by simp [Pc.effort])
  | cvLink self cv caller =>
    simp only [advance,pc] at moved
    simp only [Lists.after,pc]
    split at moved
    all_goals
      cases moved
      exact .alone pc rfl ⟨rfl,rfl,rfl⟩ rfl (by simp [Pc.effort])
  | oneTake cv =>
    cases head : s.head cv with
    | none | some cur =>
      simp only [advance,pc,head,Option.some.injEq] at moved
      subst moved
      simp only [Lists.after,pc,head]
      exact .alone pc rfl ⟨rfl,rfl,rfl⟩ rfl (by simp [Pc.effort])
  | oneUnlock cv cur =>
    simp only [advance,pc,Option.some.injEq] at moved
    subst moved
    simp only [Lists.after,pc]
    cases cur with
    | none => exact .alone pc rfl ⟨rfl,rfl,rfl⟩ rfl (by simp [Pc.effort])
    | some self => exact .alone pc rfl ⟨rfl,rfl,rfl⟩ rfl (by simp [Pc.effort])
  | allTake cv =>
    simp only [advance,pc,Option.some.injEq] at moved
    subst moved
    refine .takes ?_
    simp [State.goto,pc,Pc.takes]
  | allLoop cv cur =>
    cases cur with
    | none =>
      simp only [advance,pc,Option.some.injEq] at moved
      subst moved
      simp only [Lists.after,pc]
      exact .alone pc rfl ⟨rfl,rfl,rfl⟩ rfl (by simp [Pc.effort])
    | some curHead =>
      simp only [advance,pc,Option.some.injEq] at moved
      subst moved
      simp only [Lists.after,pc]
      have chain := linked.snapshot t
      rw [pc] at chain
      obtain ⟨rest,front,_⟩ := Chain.some_iff.mp chain
      refine .works ?_ ?_
      · simp only [State.goto,Function.update_self,pc]
        rfl
      · have cost : (s.pc t).effort g.ready = 1 := by rw [pc]; rfl
        simp only [Lists.work,Lists.share,State.goto,Function.update_self,cost,front,List.tail_cons,List.length_cons]
        simp only [Pc.effort]
        omega

omit [DecidableEq Ctx] in
private theorem snapshot_after (u : Coro) (other : u ≠ t) : (g.after s (.step t)).snapshot u = g.snapshot u := by
  simp only [Lists.after]
  repeat' split
  all_goals first | rfl | exact Function.update_of_ne other ..

omit [DecidableEq Ctx] in
private theorem ready_after (outside : (s.pc t).holding = false) : (g.after s (.step t)).ready = g.ready := by
  simp only [Lists.after]
  repeat' split
  all_goals first | rfl | simp_all [Pc.holding]

private theorem share_after (owned : Owned s h) (moved : advance s t = some s') (u : Coro) (other : u ≠ t) :
    (g.after s (.step t)).share s'.pc u = g.share s.pc u := by
  obtain ⟨p,pc,_⟩ := CondVar.advance_turn moved
  have still : s'.pc u = s.pc u := by rw [pc,Function.update_of_ne other]
  simp only [Lists.share,still,snapshot_after u other]
  cases here : s.pc u with
  | unlockReverse awaiter toResume caller =>
    have outside : (s.pc t).holding = false := by
      by_contra holding
      exact other (owned.alone (by rw [here]; rfl) (by simpa using holding))
    rw [ready_after outside]
  | _ => rfl

/-- The lists that are to be taken, and the work and the tries that are left. -/
def State.left (B : Finset Coro) (s : State Coro Ctx Cv Shared) (g : Lists Coro Cv) : Nat ×ₗ Nat ×ₗ Nat :=
  toLex (∑ u ∈ B, (s.pc u).takes,Library.left B g.work (g.share s.pc) fun u => (s.pc u).tries s.state)

omit [DecidableEq Ctx] [DecidableEq Cv] in
private theorem Gets.left_less {B : Finset Coro} {g' : Lists Coro Cv} {p : Pc Cv} (gets : Gets s s' g g' t) (member : t ∈ B)
    (pc : s'.pc = Function.update s.pc t p) (others : ∀ u, u ≠ t → g'.share s'.pc u = g.share s.pc u) : s'.left B g' < s.left B g := by
  have still : ∀ u, u ≠ t → s'.pc u = s.pc u := fun u other => by rw [pc,Function.update_of_ne other]
  have takes : (s'.pc t).takes = (s.pc t).takes → ∑ u ∈ B, (s'.pc u).takes = ∑ u ∈ B, (s.pc u).takes :=
    sum_kept_but (fun u => (s.pc u).takes) (fun u => (s'.pc u).takes) fun u other => by rw [still u other]
  rw [State.left,State.left,Prod.Lex.toLex_lt_toLex]
  cases gets with
  | takes less =>
    refine .inl ?_
    rw [← Nat.zero_add (∑ u ∈ B, (s'.pc u).takes),← Nat.zero_add (∑ u ∈ B, (s.pc u).takes)]
    exact sum_moved 0 0 member (fun u other => by rw [still u other]) (by omega)
  | works same less => exact .inr ⟨takes same,left_works member others less⟩
  | tries same lists state effort less =>
    refine .inr ⟨takes same,left_tries member (by rw [lists]) (fun u => ?_) (fun u other => ?_) ?_⟩
    · by_cases mine : u = t
      · rw [lists,mine,Lists.share,Lists.share,effort]
      · rw [lists,Lists.share,Lists.share,still u mine]
    · rw [state,still u other]
    · rwa [state]

private theorem exec_moves {x : Ctx} (moved : step s (.exec x) = some s') : ∃ t self, s.pc t = .suspended self ∧
    s'.pc = Function.update s.pc t (.awaitResume self) ∧ Gets s s' g (g.after s (.exec x)) t ∧
      ∀ u, u ≠ t → (g.after s (.exec x)).share s'.pc u = g.share s.pc u := by
  simp only [step] at moved
  cases front : s.contexts.taskQueue x with
  | nil => simp [front] at moved
  | cons handle rest =>
    simp only [front] at moved
    split at moved
    next self asleep =>
      cases moved
      refine ⟨handle,self,asleep,rfl,?_,?_⟩
      · simp only [Lists.after,front,asleep]
        exact .alone asleep rfl ⟨rfl,rfl,rfl⟩ rfl (by simp [Pc.effort])
      · intro u other
        simp only [Lists.after,front,asleep,Lists.share,State.goto,Function.update_of_ne other]
    next => contradiction

omit [DecidableEq Coro] [DecidableEq Ctx] [DecidableEq Cv] in
def GoesOn (a : Action Coro Ctx Cv Shared) : Prop := (∃ t, a = .step t) ∨ ∃ x, a = .exec x

private theorem busy_moves {a : Action Coro Ctx Cv Shared} (moved : step s a = some s') :
    ∃ t p, s'.pc = Function.update s.pc t p ∧ (GoesOn a → s.pc t ≠ .idle) := by
  by_cases goes : GoesOn a
  · rcases goes with ⟨t,rfl⟩ | ⟨x,rfl⟩
    · obtain ⟨p,pc,_⟩ := CondVar.advance_turn moved
      exact ⟨t,p,pc,fun _ idle => by simp [step,advance,idle] at moved⟩
    · obtain ⟨t,self,asleep,pc,_⟩ := exec_moves (g := .initial) moved
      exact ⟨t,_,pc,fun _ => by simp [asleep]⟩
  · obtain ⟨t,p,pc,_⟩ := step_moves moved
    exact ⟨t,p,pc,fun kind => absurd kind goes⟩

theorem calls_end (reachable : (machine Coro Ctx Cv Shared).Reachable s) :
    Acc (Function.swap ((machine Coro Ctx Cv Shared).Moves GoesOn)) s := by
  obtain ⟨h,g,inv⟩ := reachable_invariant s reachable
  apply Machine.ends_of_calls State.pc .idle (fun B s l => ∃ h g, Invariant s h g ∧ l = s.left B g) _
    (fun _ _ _ => busy_moves) _ s reachable fun B => ⟨_,h,g,inv,rfl⟩
  · intro s fresh
    obtain ⟨_,_,_,_,_,_,pc,_⟩ := fresh
    exact pc
  · rintro B s s' a _ ⟨h,g,inv,rfl⟩ inside kind moved
    refine ⟨_,⟨_,_,inv.step moved,rfl⟩,?_⟩
    rcases kind with ⟨t,rfl⟩ | ⟨x,rfl⟩
    · obtain ⟨p,pc,_⟩ := CondVar.advance_turn moved
      have busy : s.pc t ≠ .idle := fun idle => by simp [machine,step,advance,idle] at moved
      exact (advance_gets inv moved).left_less (inside t busy) pc (share_after inv.owned moved)
    · obtain ⟨t,self,asleep,pc,gets,others⟩ := exec_moves (g := g) moved
      exact gets.left_less (inside t (by simp [asleep])) pc others

/-- Every call has returned or suspended its coroutine, the workers have taken all handles
and no spin lock is held. A coroutine is then suspended only in the list of its condition
variable, or because a coroutine that has returned from its calls owns the mutex. -/
structure AtRest (s : State Coro Ctx Cv Shared) : Prop where
  rests : ∀ t, s.pc t = .idle ∨ ∃ a, s.pc t = .suspended a
  unlocked : ∀ k, s.lock k = false
  taken : ∀ x, s.contexts.taskQueue x = []
  served : ∀ t a, s.pc t = .suspended a →
    (∃ k cond waiters, s.kind a = .wait k cond ∧ Chain s.next (s.head k) waiters ∧ a ∈ waiters) ∨ ∃ u, s.owns u = true

omit [DecidableEq Coro] [DecidableEq Ctx] [DecidableEq Cv] in
private theorem rests_of_settled {pc : Pc Cv} (settled : pc.settled = true) : pc = .idle ∨ ∃ a, pc = .suspended a := by
  cases pc with
  | idle => exact .inl rfl
  | suspended a => exact .inr ⟨a,rfl⟩
  | _ => contradiction

omit [DecidableEq Coro] [DecidableEq Ctx] [DecidableEq Cv] in
/-- Where nobody is inside a call and no handle is queued, who has a mutex that is not free has returned with it. -/
theorem Owned.has (owned : Owned s h) (rests : ∀ t, s.pc t = .idle ∨ ∃ a, s.pc t = .suspended a)
    (taken : ∀ x, s.contexts.taskQueue x = []) (locked : s.state ≠ .nolocked) : ∃ u, s.owns u = true := by
  cases h with
  | nobody => exact absurd (owned.free.mpr rfl) locked
  | thread u =>
    rcases owned.held u rfl with owns | holding
    · exact ⟨u,owns⟩
    · rcases rests u with pc | ⟨a,pc⟩ <;> simp [pc,Pc.holding] at holding
  | handle u =>
    obtain ⟨x,single,_⟩ := owned.submitted u rfl
    simp [taken x] at single

omit [DecidableEq Coro] [DecidableEq Ctx] [DecidableEq Cv] in
/-- Then every suspended coroutine has its awaiter in a list. -/
theorem Tracked.listed (tracked : Tracked s g) (rests : ∀ t, s.pc t = .idle ∨ ∃ a, s.pc t = .suspended a)
    (taken : ∀ x, s.contexts.taskQueue x = []) {a : Addr} (asleep : s.pc t = .suspended a) :
    a ∈ g.queue ∨ ∃ k cond waiters, s.kind a = .wait k cond ∧ Chain s.next (s.head k) waiters ∧ a ∈ waiters := by
  obtain ⟨placed,linked⟩ := tracked
  cases place : g.place a with
  | gone =>
    have live := (placed.live t a (by rw [asleep]; rfl)).1
    rw [(placed.gone a).mp place] at live
    contradiction
  | state =>
    refine .inl (List.mem_append.mpr (.inr ?_))
    rw [List.mem_reverse]
    exact (linked.inChain a).mpr place
  | resumeList => exact .inl (List.mem_append.mpr (.inl ((linked.inReady a).mpr place)))
  | cv k =>
    obtain ⟨cond,kind⟩ := placed.kind a k place
    exact .inr ⟨k,cond,_,kind,linked.waiting k,(linked.inWaiting k a).mpr place⟩
  | snapshot u =>
    have member := (linked.inSnapshot u a).mpr place
    have chain := linked.snapshot u
    have empty : g.snapshot u = [] := by
      rcases rests u with pc | ⟨b,pc⟩ <;> rw [pc] at chain <;> exact Chain.none_iff.mp chain
    rw [empty] at member
    contradiction
  | hand u =>
    have hand := (placed.hand u a).mpr place
    rcases rests u with pc | ⟨b,pc⟩ <;> simp [pc,Pc.hand] at hand
  | submitted =>
    obtain ⟨_,x,member⟩ := placed.submitted a place
    rw [taken x] at member
    contradiction

theorem atRest_of_stuck (reachable : (machine Coro Ctx Cv Shared).Reachable s)
    (stuck : ∀ s', ¬ (machine Coro Ctx Cv Shared).Moves GoesOn s s') : AtRest s := by
  obtain ⟨h,g,inv⟩ := reachable_invariant s reachable
  have held := reachable_held s reachable
  have rests : ∀ t, s.pc t = .idle ∨ ∃ a, s.pc t = .suspended a := by
    intro t
    apply rests_of_settled
    by_contra busy
    obtain ⟨u,moves⟩ := some_moves inv held (t := t) (by simpa using busy)
    obtain ⟨s',moved⟩ := Option.ne_none_iff_exists'.mp moves
    exact stuck s' ⟨.step u,.inl ⟨u,rfl⟩,moved⟩
  have taken : ∀ x, s.contexts.taskQueue x = [] := by
    intro x
    cases front : s.contexts.taskQueue x with
    | nil => rfl
    | cons handle rest =>
      obtain ⟨a,place,same,_⟩ := inv.tracked.placed.queued handle x (by simp [front])
      have asleep := (inv.tracked.placed.submitted a place).1
      rw [same] at asleep
      exact absurd ⟨.exec x,.inr ⟨x,rfl⟩,by simp only [machine,step,front,asleep]; rfl⟩ (stuck _)
  refine ⟨rests,?_,taken,?_⟩
  · intro k
    by_contra locked
    obtain ⟨t,spins⟩ := held.lock k (by simpa using locked)
    rcases rests t with pc | ⟨a,pc⟩ <;> simp [pc,Pc.spins] at spins
  · intro t a asleep
    obtain ⟨s₀,actions,fresh,ran⟩ := Machine.Within.exists_run reachable
    obtain ⟨l₀,rfl,together⟩ := simulates.start s₀ fresh
    obtain ⟨l,_,h,g,abstracts,_⟩ := simulates.run actions s₀ s .free together ran
    rcases abstracts.tracked.listed rests taken asleep with queued | waits
    · refine .inr (abstracts.owned.has rests taken fun free => ?_)
      -- a free mutex has an empty queue
      have empty := (abstracts.free free).2
      rw [abstracts.queue,List.map_eq_nil_iff] at empty
      rw [empty] at queued
      contradiction
    · exact .inl waits

theorem still_of_idle (idle : ∀ t, s.pc t = .idle) (taken : ∀ x, s.contexts.taskQueue x = []) (s' : State Coro Ctx Cv Shared) :
    ¬ (machine Coro Ctx Cv Shared).Moves GoesOn s s' := by
  rintro ⟨a,⟨t,rfl⟩ | ⟨x,rfl⟩,moved⟩
  · simp [machine,step,advance,idle t] at moved
  · simp [machine,step,taken x] at moved

/-- The calls under way come to an end whatever the order of their steps, if only
compare-and-exchange does not fail without cause, and no deadlock stops them before. -/
theorem calls_settle (s : State Coro Ctx Cv Shared) (reachable : (machine Coro Ctx Cv Shared).Reachable s) :
    Acc (Function.swap ((machine Coro Ctx Cv Shared).Moves GoesOn)) s ∧
      ∀ s', Relation.ReflTransGen ((machine Coro Ctx Cv Shared).Moves GoesOn) s s' →
        (∀ s'', ¬ (machine Coro Ctx Cv Shared).Moves GoesOn s' s'') → AtRest s' :=
  ⟨calls_end reachable,fun _ moves stuck => atRest_of_stuck (Machine.reachable_of_moves moves reachable) stuck⟩

end

/-- A coroutine waits for the mutex and another one has called `unlock`; the first one gets the mutex. -/
theorem hand_over_settles : ∃ s s', (machine Bool Unit Unit Bool).run initial (handOver.take 10) = some s ∧
    (s.pc false).settled = false ∧ Acc (Function.swap ((machine Bool Unit Unit Bool).Moves GoesOn)) s ∧
    (machine Bool Unit Unit Bool).run s (handOver.drop 10) = some s' ∧ s'.owns true = true ∧ AtRest s' := by
  have ran : ((machine Bool Unit Unit Bool).run initial (handOver.take 10)).bind (fun s =>
      ((machine Bool Unit Unit Bool).run s (handOver.drop 10)).map fun s' =>
        ((s.pc false).settled,s'.owns true,s'.pc false,s'.pc true,s'.contexts.taskQueue ())) =
      some (false,true,.idle,.idle,[]) := by rfl
  obtain ⟨s,reached,ran⟩ := Option.bind_eq_some_iff.mp ran
  obtain ⟨s',ended,shape⟩ := Option.map_eq_some_iff.mp ran
  simp only [Prod.mk.injEq] at shape
  obtain ⟨busy,owns,first,second,empty⟩ := shape
  obtain ⟨ends,rests⟩ := calls_settle s (Machine.run_reachable _ _ _ _ (.start initial_fresh) reached)
  refine ⟨s,s',reached,busy,ends,ended,owns,rests s' (Machine.moves_of_run ?_ ended) ?_⟩
  · simp [handOver,GoesOn]
  · exact still_of_idle (Bool.forall_bool.mpr ⟨first,second⟩) fun _ => empty

end TinyCoro.Mutex
