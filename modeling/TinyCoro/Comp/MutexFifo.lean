import TinyCoro.Library.FifoLock
import TinyCoro.Comp.MutexWaits

/-! The mutex refines a lock that is granted first come, first served: its owner
is the coroutine that has the mutex or for which a thread holds it, and its queue
is the list of the resumes followed by the chain of `m_state` turned around. -/
namespace TinyCoro.Mutex
open Library

section
variable {Coro Cv : Type} (coro : Addr → Coro) (t : Coro)

def Frame.behalf : Frame Cv → Coro
  | .resume self _ => coro self
  | _ => t

/-- The coroutine for which thread `t` holds the mutex, if it does. -/
def Pc.behalf : Pc Cv → Coro
  | .unlock caller | .unlockHead caller | .unlockCompareExchange caller | .unlockExchange caller
  | .unlockReverse _ _ caller | .unlockPop _ caller | .cvUnlock _ _ caller => caller.behalf coro t
  | .resume self _ | .submitTask self _ | .cvRegisterWait self _ _ | .cvLock self _ _ | .cvLink self _ _ => coro self
  | _ => t

@[simp] theorem finish_behalf (f : Frame Cv) : f.finish.behalf coro t = t := by
  induction f with
  | resume _ _ ih => exact ih
  | _ => rfl

end

variable {Coro Ctx Cv Shared : Type} [DecidableEq Coro] [DecidableEq Ctx] [DecidableEq Cv]

def State.behalf (s : State Coro Ctx Cv Shared) (t : Coro) : Coro := (s.pc t).behalf s.awaitCoro t

/-- The operations on the abstract lock that a step performs. -/
def shows (s : State Coro Ctx Cv Shared) : Action Coro Ctx Cv Shared → List (FifoLock.Event Coro)
  | .tryLock t => if s.state = .nolocked then [.acquire t] else [.fail t]
  | .step t =>
    match s.pc t with
    | .compareExchange self .nolocked _ => if s.state = .nolocked then [.acquire (s.awaitCoro self)] else []
    | .compareExchange self (.locked head) _ => if s.state = .locked head then [.enqueue (s.awaitCoro self)] else []
    | .unlockHead _ => if s.resumeListHead = none then [] else [.release (s.behalf t)]
    | .unlockCompareExchange _ => if s.state = lockedNoWaiting then [.release (s.behalf t)] else []
    | .unlockPop _ _ => [.release (s.behalf t)]
    | _ => []
  | _ => []

def Holder.owner (h : Holder Coro) (s : State Coro Ctx Cv Shared) : Option Coro :=
  match h with
  | .nobody => none
  | .thread t => some (s.behalf t)
  | .handle t => some t

/-- The awaiters that wait for the mutex, in the order in which they will have it. -/
def Lists.queue (g : Lists Coro Cv) : List Addr := g.ready ++ g.chain.reverse

structure Abstracts (s : State Coro Ctx Cv Shared) (h : Holder Coro) (g : Lists Coro Cv) (l : FifoLock Coro) : Prop where
  owned : Owned s h
  tracked : Tracked s g
  fair : l.Fair
  owner : l.owner = h.owner s
  queue : l.queue = g.queue.map s.awaitCoro

section
variable {s s' : State Coro Ctx Cv Shared} {h : Holder Coro} {g : Lists Coro Cv} {l : FifoLock Coro} {t : Coro}

omit [DecidableEq Coro] [DecidableEq Ctx] [DecidableEq Cv] in
private theorem Tracked.behalf_congr (tracked : Tracked s g) {coro : Addr → Coro}
    (same : ∀ a, s.live a = true → coro a = s.awaitCoro a) : (s.pc t).behalf coro t = s.behalf t := by
  have hand : ∀ a, (s.pc t).hand = some a → coro a = s.awaitCoro a := fun a here =>
    same a (tracked.placed.live_of_hand here)
  have frame : ∀ f, (s.pc t).frame = some f → (s.pc t).holding = true → f.behalf coro t = f.behalf s.awaitCoro t := by
    intro f here holding
    cases f with
    | resume a caller => exact same a (tracked.placed.behalf t a caller here holding)
    | _ => rfl
  unfold State.behalf
  cases pc : s.pc t with
  | resume a caller | submitTask a caller => exact hand a (by rw [pc]; rfl)
  | cvRegisterWait a k caller | cvLock a k caller | cvLink a k caller => exact hand a (by rw [pc]; rfl)
  | unlock caller | unlockHead caller | unlockCompareExchange caller | unlockExchange caller =>
    exact frame caller (by rw [pc]; rfl) (by rw [pc]; rfl)
  | unlockReverse _ _ caller | unlockPop _ caller | cvUnlock _ _ caller =>
    exact frame caller (by rw [pc]; rfl) (by rw [pc]; rfl)
  | _ => rfl

omit [DecidableEq Coro] [DecidableEq Ctx] [DecidableEq Cv] in
private theorem behalf_outside (outside : (s.pc t).holding = false) : s.behalf t = t := by
  unfold State.behalf
  cases pc : s.pc t <;> simp_all [Pc.holding,Pc.behalf]

omit [DecidableEq Coro] [DecidableEq Ctx] [DecidableEq Cv] in
private theorem Tracked.queue_live (tracked : Tracked s g) {a : Addr} (member : a ∈ g.queue) : s.live a = true := by
  by_contra dead
  have gone := (tracked.placed.gone a).mpr (by simpa using dead)
  rcases List.mem_append.mp member with ready | chain
  · rw [(tracked.linked.inReady a).mp ready] at gone; contradiction
  · rw [(tracked.linked.inChain a).mp (List.mem_reverse.mp chain)] at gone; contradiction

omit [DecidableEq Coro] [DecidableEq Ctx] [DecidableEq Cv] in
theorem Abstracts.quiet (abstracts : Abstracts s h g l) {h' : Holder Coro} {g' : Lists Coro Cv} (owned : Owned s' h')
    (tracked : Tracked s' g') (owner : h'.owner s' = h.owner s) (queue : g'.queue = g.queue)
    (awaitCoro : ∀ a, s.live a = true → s'.awaitCoro a = s.awaitCoro a) : Abstracts s' h' g' l := by
  refine ⟨owned,tracked,abstracts.fair,?_,?_⟩
  · rw [owner]; exact abstracts.owner
  · rw [queue,abstracts.queue]
    exact List.map_congr_left fun a member => (awaitCoro a (abstracts.tracked.queue_live member)).symm

omit [DecidableEq Ctx] [DecidableEq Cv] in
private theorem owner_goto {p q : Pc Cv} (before : s.pc t = q) (pc : s'.pc = Function.update s.pc t p)
    (awaitCoro : s'.awaitCoro = s.awaitCoro) (behalf : p.behalf s.awaitCoro t = q.behalf s.awaitCoro t) :
    h.owner s' = h.owner s := by
  cases h with
  | thread u =>
    simp only [Holder.owner,State.behalf,awaitCoro,pc]
    by_cases same : u = t
    · rw [same,Function.update_self,before,behalf]
    · rw [Function.update_of_ne same]
  | _ => rfl

omit [DecidableEq Coro] [DecidableEq Ctx] [DecidableEq Cv] in
theorem Abstracts.free (abstracts : Abstracts s h g l) (free : s.state = .nolocked) : l.owner = none ∧ l.queue = [] := by
  have nobody := abstracts.owned.free.mp free
  have none : l.owner = none := by rw [abstracts.owner,nobody]; rfl
  exact ⟨none,abstracts.fair.1 none⟩

omit [DecidableEq Coro] [DecidableEq Ctx] [DecidableEq Cv] in
theorem Abstracts.held (abstracts : Abstracts s h g l) (locked : s.state ≠ .nolocked) : l.owner ≠ none := by
  intro none
  rw [abstracts.owner] at none
  cases holder : h with
  | nobody => exact locked (abstracts.owned.free.mpr holder)
  | _ => simp [holder,Holder.owner] at none

omit [DecidableEq Coro] [DecidableEq Ctx] [DecidableEq Cv] in
theorem Abstracts.acting (abstracts : Abstracts s h g l) (holding : (s.pc t).holding = true) :
    l.owner = some (s.behalf t) := by
  rw [abstracts.owner,abstracts.owned.holds t holding]
  rfl

omit [DecidableEq Coro] [DecidableEq Ctx] [DecidableEq Cv] in
private theorem Tracked.coro_self (tracked : Tracked s g) {a : Addr} (self : (s.pc t).self = some a) : s.awaitCoro a = t :=
  (tracked.placed.live t a self).2

omit [DecidableEq Ctx] [DecidableEq Cv] in
/-- `unlock` hands the mutex to the first of the queue. -/
theorem Abstracts.pass (abstracts : Abstracts s h g l) {toResume : Addr} {rest : List Addr} {caller : Frame Cv}
    (holding : (s.pc t).holding = true) (ready : g.ready = toResume::rest) (owned : Owned s' h)
    (tracked : Tracked s' { g with ready := g.ready.tail, place := Function.update g.place toResume (.hand t) })
    (pc : s'.pc t = .resume toResume caller) (awaitCoro : s'.awaitCoro = s.awaitCoro) :
    ∃ l', (FifoLock.machine Coro).run l [.release (s.behalf t)] = some l' ∧
      Abstracts s' h { g with ready := g.ready.tail, place := Function.update g.place toResume (.hand t) } l' := by
  have owner := abstracts.acting holding
  have queue := abstracts.queue
  simp only [Lists.queue,ready,List.cons_append,List.map_cons] at queue
  have stepped : l.step (.release (s.behalf t)) = some { l with
      owner := some (s.awaitCoro toResume)
      queue := (rest ++ g.chain.reverse).map s.awaitCoro
      granted := l.granted ++ [s.awaitCoro toResume] } := by
    simp [FifoLock.step,owner,queue]
  refine ⟨_,by simp only [Machine.run,FifoLock.machine,stepped,Option.bind_some],owned,tracked,abstracts.fair.step stepped,?_,?_⟩
  · rw [abstracts.owned.holds t holding]
    simp only [Holder.owner,State.behalf,pc,awaitCoro]
    rfl
  · simp only [Lists.queue,ready,List.tail_cons,awaitCoro]

theorem Abstracts.advance (abstracts : Abstracts s h g l) (moved : advance s t = some s') :
    ∃ l', (FifoLock.machine Coro).run l (shows s (.step t)) = some l' ∧
      Abstracts s' (h.after s (.step t)) (g.after s (.step t)) l' := by
  have owned' := abstracts.owned.advance moved
  have tracked' := abstracts.tracked.advance abstracts.owned moved
  cases pc : s.pc t with
  | idle | suspended self | aborted => simp [Mutex.advance,pc] at moved
  | compareExchange self state waker =>
    simp only [Mutex.advance,pc] at moved
    by_cases same : s.state = state
    · subst same
      cases here : s.state with
      | nolocked =>
        obtain ⟨none,bare⟩ := abstracts.free here
        simp only [shows,Holder.after,Lists.after,pc,here,ite_true] at owned' tracked' moved ⊢
        have stepped : l.step (.acquire (s.awaitCoro self)) = some { l with
            owner := some (s.awaitCoro self)
            requested := l.requested ++ [s.awaitCoro self]
            granted := l.granted ++ [s.awaitCoro self] } := by
          simp [FifoLock.step,none,bare]
        cases moved
        refine ⟨_,by simp only [Machine.run,FifoLock.machine,stepped,Option.bind_some],owned',tracked',
          abstracts.fair.step stepped,?_,abstracts.queue⟩
        cases waker with
        | none =>
          have mine := abstracts.tracked.coro_self (t := t) (a := self) (by rw [pc]; rfl)
          simp [Holder.owner,State.behalf,State.goto,Pc.behalf,mine]
        | some caller => simp [Holder.owner,State.behalf,State.goto,Pc.behalf]
      | locked head =>
        have held := abstracts.held (by simp [here])
        simp only [shows,Holder.after,Lists.after,pc,here,ite_true] at owned' tracked' moved ⊢
        have stepped : l.step (.enqueue (s.awaitCoro self)) = some { l with
            queue := l.queue ++ [s.awaitCoro self]
            requested := l.requested ++ [s.awaitCoro self] } := by
          simp [FifoLock.step,held]
        cases moved
        refine ⟨_,by simp only [Machine.run,FifoLock.machine,stepped,Option.bind_some],owned',tracked',
          abstracts.fair.step stepped,?_,?_⟩
        · rw [abstracts.owner]
          symm
          refine owner_goto pc rfl rfl ?_
          cases waker with
          | none => rfl
          | some caller => exact finish_behalf ..
        · rw [abstracts.queue]
          simp [Lists.queue,State.goto]
    · rw [if_neg same] at moved
      cases moved
      have quiet : shows s (.step t) = [] ∧ h.after s (.step t) = h ∧ g.after s (.step t) = g := by
        simp only [shows,Holder.after,Lists.after,pc]
        cases state with
        | nolocked => exact ⟨if_neg same,if_neg same,rfl⟩
        | locked head => exact ⟨if_neg same,rfl,if_neg same⟩
      obtain ⟨nothing,holder,lists⟩ := quiet
      rw [holder] at owned' ⊢
      rw [lists] at tracked' ⊢
      rw [nothing]
      exact ⟨l,rfl,abstracts.quiet owned' tracked' (owner_goto pc rfl rfl rfl) rfl fun _ _ => rfl⟩
  | unlock caller =>
    have locked := abstracts.owned.locked (t := t) (by rw [pc]; rfl)
    simp only [shows,Holder.after,Lists.after,pc] at owned' tracked' ⊢
    simp only [Mutex.advance,pc,Option.some.injEq,if_neg locked] at moved
    subst moved
    exact ⟨l,rfl,abstracts.quiet owned' tracked' (owner_goto pc rfl rfl rfl) rfl fun _ _ => rfl⟩
  | unlockHead caller =>
    have holding : (s.pc t).holding = true := by rw [pc]; rfl
    simp only [shows,Holder.after,Lists.after,pc] at owned' tracked' ⊢
    simp only [Mutex.advance,pc] at moved
    split at moved
    next none =>
      cases moved
      rw [none] at tracked' ⊢
      rw [if_pos rfl]
      exact ⟨l,rfl,abstracts.quiet owned' tracked' (owner_goto pc rfl rfl rfl) rfl fun _ _ => rfl⟩
    next toResume some =>
      cases moved
      rw [some] at tracked' ⊢
      rw [if_neg (by simp)]
      have first := abstracts.tracked.linked.resumeList (abstracts.owned.quietly pc)
      rw [some] at first
      obtain ⟨rest,ready,_⟩ := Chain.some_iff.mp first
      exact abstracts.pass holding ready owned' tracked' (Function.update_self ..) rfl
  | unlockPop toResume caller =>
    have holding : (s.pc t).holding = true := by rw [pc]; rfl
    obtain ⟨rest,ready,_⟩ := Chain.some_iff.mp (abstracts.tracked.linked.pop t toResume caller pc)
    simp only [shows,Holder.after,Lists.after,pc] at owned' tracked' ⊢
    simp only [Mutex.advance,pc,Option.some.injEq] at moved
    subst moved
    exact abstracts.pass holding ready owned' tracked' (Function.update_self ..) rfl
  | unlockCompareExchange caller =>
    have holding : (s.pc t).holding = true := by rw [pc]; rfl
    have owner := abstracts.acting holding
    simp only [shows,Holder.after,Lists.after,pc] at owned' tracked' ⊢
    simp only [Mutex.advance,pc] at moved
    split at moved
    next bare =>
      cases moved
      simp only [if_pos bare] at owned' ⊢
      have chain := abstracts.tracked.linked.chain
      have ready := abstracts.tracked.linked.resumeList (abstracts.owned.quietly pc)
      rw [abstracts.tracked.linked.refilling t (by rw [pc]; rfl)] at ready
      rw [bare] at chain
      have empty : l.queue = [] := by
        rw [abstracts.queue,Lists.queue,Chain.none_iff.mp ready,Chain.none_iff.mp chain]; rfl
      have stepped : l.step (.release (s.behalf t)) = some { l with owner := none } := by
        simp [FifoLock.step,owner,empty]
      exact ⟨_,by simp only [Machine.run,FifoLock.machine,stepped,Option.bind_some],owned',tracked',
        abstracts.fair.step stepped,rfl,abstracts.queue⟩
    next waiters =>
      cases moved
      simp only [if_neg waiters] at owned' ⊢
      exact ⟨l,rfl,abstracts.quiet owned' tracked' (owner_goto pc rfl rfl rfl) rfl fun _ _ => rfl⟩
  | unlockExchange caller =>
    have locked := abstracts.owned.locked (t := t) (by rw [pc]; rfl)
    have waiters := (abstracts.owned.exchanging t (by rw [pc]; rfl)).2
    have ready := abstracts.tracked.linked.resumeList (abstracts.owned.quietly pc)
    rw [abstracts.tracked.linked.refilling t (by rw [pc]; rfl),Chain.none_iff] at ready
    simp only [shows,Holder.after,Lists.after,pc] at owned' tracked' ⊢
    simp only [Mutex.advance,pc] at moved
    split at moved
    next awaiter some =>
      cases moved
      exact ⟨l,rfl,abstracts.quiet owned' tracked' (owner_goto pc rfl rfl rfl) (by simp [Lists.queue,ready]) fun _ _ => rfl⟩
    next none =>
      cases moved
      exact absurd (Function.update_self ..) (owned'.exchanging t (by simp [State.goto,Pc.exchanging])).1
  | submitTask self caller =>
    have holding : (s.pc t).holding = true := by rw [pc]; rfl
    have owner := abstracts.acting holding
    simp only [shows,Holder.after,Lists.after,pc] at owned' tracked' ⊢
    simp only [Mutex.advance,pc,Option.some.injEq] at moved
    subst moved
    refine ⟨l,rfl,owned',tracked',abstracts.fair,?_,abstracts.queue⟩
    rw [owner,State.behalf,pc]
    rfl
  | cvAwaitSuspend self =>
    have mine := abstracts.tracked.coro_self (t := t) (a := self) (by rw [pc]; rfl)
    simp only [shows,Holder.after,Lists.after,pc] at owned' tracked' ⊢
    simp only [Mutex.advance,pc] at moved
    split at moved
    next => contradiction
    next cv cond wait =>
      cases moved
      refine ⟨l,rfl,abstracts.quiet owned' tracked' (owner_goto pc rfl rfl ?_) rfl fun _ _ => rfl⟩
      split
      next => rfl
      next => exact mine
  | cvLink self cv caller =>
    have behalf : (Pc.cvUnlock self cv caller).behalf s.awaitCoro t = s.awaitCoro self := by
      rcases (abstracts.tracked.placed.registering t self cv caller (by rw [pc]; rfl)).2 with rfl | ⟨caller',rfl⟩
      · exact (abstracts.tracked.coro_self (t := t) (by rw [pc]; rfl)).symm
      · rfl
    simp only [shows,Holder.after,Lists.after,pc] at owned' tracked' ⊢
    simp only [Mutex.advance,pc] at moved
    split at moved
    all_goals cases moved
    all_goals exact ⟨l,rfl,abstracts.quiet owned' tracked' (owner_goto pc rfl rfl behalf) rfl fun _ _ => rfl⟩
  | resume self caller =>
    simp only [shows,Holder.after,Lists.after,pc] at owned' tracked' ⊢
    simp only [Mutex.advance,pc] at moved
    split at moved
    all_goals cases moved
    all_goals refine ⟨l,rfl,abstracts.quiet owned' tracked' (owner_goto pc rfl rfl ?_) rfl fun _ _ => rfl⟩
    · rfl
    · split <;> rfl
  | unlockReverse awaiter toResume caller =>
    simp only [shows,Holder.after,Lists.after,pc] at owned' tracked' ⊢
    simp only [Mutex.advance,pc,Option.some.injEq] at moved
    subst moved
    refine ⟨l,rfl,abstracts.quiet owned' tracked' (owner_goto pc rfl rfl ?_) rfl fun _ _ => rfl⟩
    split <;> rfl
  | oneTake cv =>
    cases head : s.head cv with
    | none =>
      simp only [shows,Holder.after,Lists.after,pc,head] at owned' tracked' ⊢
      simp only [Mutex.advance,pc,head,Option.some.injEq] at moved
      subst moved
      exact ⟨l,rfl,abstracts.quiet owned' tracked' (owner_goto pc rfl rfl rfl) rfl fun _ _ => rfl⟩
    | some cur =>
      simp only [shows,Holder.after,Lists.after,pc,head] at owned' tracked' ⊢
      simp only [Mutex.advance,pc,head,Option.some.injEq] at moved
      subst moved
      exact ⟨l,rfl,abstracts.quiet owned' tracked' (owner_goto pc rfl rfl rfl) rfl fun _ _ => rfl⟩
  | oneUnlock cv cur =>
    simp only [shows,Holder.after,Lists.after,pc] at owned' tracked' ⊢
    simp only [Mutex.advance,pc,Option.some.injEq] at moved
    subst moved
    refine ⟨l,rfl,abstracts.quiet owned' tracked' (owner_goto pc rfl rfl ?_) rfl fun _ _ => rfl⟩
    cases cur <;> rfl
  | allLoop cv curHead =>
    cases curHead with
    | _ =>
      simp only [shows,Holder.after,Lists.after,pc] at owned' tracked' ⊢
      simp only [Mutex.advance,pc,Option.some.injEq] at moved
      subst moved
      exact ⟨l,rfl,abstracts.quiet owned' tracked' (owner_goto pc rfl rfl rfl) rfl fun _ _ => rfl⟩
  | cvLock self cv caller | oneLock cv | allLock cv =>
    simp only [shows,Holder.after,Lists.after,pc] at owned' tracked' ⊢
    simp only [Mutex.advance,pc] at moved
    split at moved
    next => contradiction
    next =>
      cases moved
      exact ⟨l,rfl,abstracts.quiet owned' tracked' (owner_goto pc rfl rfl rfl) rfl fun _ _ => rfl⟩
  | _ =>
    simp only [shows,Holder.after,Lists.after,pc] at owned' tracked' ⊢
    simp only [Mutex.advance,pc,Option.some.injEq] at moved
    subst moved
    exact ⟨l,rfl,abstracts.quiet owned' tracked' (owner_goto pc rfl rfl rfl) rfl fun _ _ => rfl⟩

omit [DecidableEq Coro] [DecidableEq Ctx] [DecidableEq Cv] in
private theorem owner_congr (pc : s'.pc = s.pc) (awaitCoro : s'.awaitCoro = s.awaitCoro) : h.owner s' = h.owner s := by
  unfold Holder.owner State.behalf
  rw [pc,awaitCoro]

omit [DecidableEq Ctx] [DecidableEq Cv] in
private theorem Tracked.owner_construct (tracked : Tracked s g) {self : Addr} {p : Pc Cv} (free : s.live self = false)
    (idle : s.pc t = .idle) (pc : s'.pc = Function.update s.pc t p)
    (awaitCoro : s'.awaitCoro = Function.update s.awaitCoro self t) (behalf : p.behalf s'.awaitCoro t = t) :
    h.owner s' = h.owner s := by
  cases h with
  | thread u =>
    simp only [Holder.owner]
    by_cases same : u = t
    · simp only [State.behalf,pc,same,Function.update_self,behalf,idle]
      rfl
    · rw [State.behalf,pc,Function.update_of_ne same,tracked.behalf_congr]
      intro a live
      rw [awaitCoro,Function.update_of_ne (by rintro rfl; rw [free] at live; contradiction)]
  | _ => rfl

theorem Abstracts.step {a : Action Coro Ctx Cv Shared} (abstracts : Abstracts s h g l) (moved : step s a = some s') :
    ∃ l', (FifoLock.machine Coro).run l (shows s a) = some l' ∧ Abstracts s' (h.after s a) (g.after s a) l' := by
  have owned' := abstracts.owned.step moved
  have tracked' := abstracts.tracked.step abstracts.owned moved
  cases a with
  | step t => exact abstracts.advance moved
  | lock t self x =>
    simp only [Mutex.step] at moved
    split at moved
    next pc =>
      split at moved
      next => contradiction
      next free =>
        cases moved
        have dead : s.live self = false := by simpa using free
        refine ⟨l,rfl,abstracts.quiet owned' tracked' (abstracts.tracked.owner_construct dead pc rfl rfl rfl) rfl ?_⟩
        exact fun a live => Function.update_of_ne (by rintro rfl; rw [dead] at live; contradiction) ..
    next => contradiction
  | wait t self x cv cond =>
    simp only [Mutex.step] at moved
    split at moved
    next pc =>
      split at moved
      next free =>
        cases moved
        refine ⟨l,rfl,abstracts.quiet owned' tracked' (abstracts.tracked.owner_construct free.2 pc rfl rfl rfl) rfl ?_⟩
        exact fun a live => Function.update_of_ne (by rintro rfl; rw [free.2] at live; contradiction) ..
      next => contradiction
    next => contradiction
  | tryLock t =>
    simp only [shows,Holder.after] at owned' ⊢
    simp only [Mutex.step] at moved
    split at moved
    next pc =>
      split at moved
      next free =>
        obtain ⟨none,bare⟩ := abstracts.free free
        cases moved
        rw [if_pos free] at owned' ⊢
        have stepped : l.step (.acquire t) = some { l with
            owner := some t
            requested := l.requested ++ [t]
            granted := l.granted ++ [t] } := by
          simp [FifoLock.step,none,bare]
        refine ⟨_,by simp only [Machine.run,FifoLock.machine,stepped,Option.bind_some],?_,tracked',
          abstracts.fair.step stepped,?_,abstracts.queue⟩
        · rw [if_pos free]; exact owned'
        · rw [if_pos free]
          simp [Holder.owner,State.behalf,pc,Pc.behalf]
      next held =>
        cases moved
        rw [if_neg held] at owned' ⊢
        have stepped : l.step (.fail t) = some l := by simp [FifoLock.step,abstracts.held held]
        refine ⟨l,by simp only [Machine.run,FifoLock.machine,stepped,Option.bind_some],?_⟩
        rw [if_neg held]
        exact abstracts
    next => contradiction
  | unlock t =>
    simp only [Mutex.step] at moved
    split at moved
    next pc =>
      split at moved
      next => cases moved; exact ⟨l,rfl,abstracts.quiet owned' tracked' (owner_goto pc rfl rfl rfl) rfl fun _ _ => rfl⟩
      next => contradiction
    next => contradiction
  | notifyOne t cv | notifyAll t cv =>
    simp only [Mutex.step] at moved
    split at moved
    next pc => cases moved; exact ⟨l,rfl,abstracts.quiet owned' tracked' (owner_goto pc rfl rfl rfl) rfl fun _ _ => rfl⟩
    next => contradiction
  | modify t shared =>
    simp only [Mutex.step] at moved
    split at moved
    next pc =>
      split at moved
      next => cases moved; exact ⟨l,rfl,abstracts.quiet owned' tracked' (owner_congr rfl rfl) rfl fun _ _ => rfl⟩
      next => contradiction
    next => contradiction
  | spurious t =>
    simp only [Mutex.step] at moved
    split at moved
    next self state waker pc =>
      cases moved
      exact ⟨l,rfl,abstracts.quiet owned' tracked' (owner_goto pc rfl rfl rfl) rfl fun _ _ => rfl⟩
    next => contradiction
  | exec x =>
    simp only [shows,Holder.after,Lists.after] at owned' tracked' ⊢
    simp only [Mutex.step] at moved
    split at moved
    next => contradiction
    next front rest queue =>
      split at moved
      next self pc =>
        cases moved
        obtain ⟨rfl,_⟩ := abstracts.owned.handle queue
        simp only [queue,pc] at owned' tracked' ⊢
        refine ⟨l,rfl,abstracts.quiet owned' tracked' ?_ rfl fun _ _ => rfl⟩
        simp [Holder.owner,State.behalf,State.goto,Pc.behalf]
      next => contradiction

/-- The mutex is simulated by the lock that is granted first come, first served. -/
theorem simulates : (machine Coro Ctx Cv Shared).Simulates (FifoLock.machine Coro) shows
    fun s l => ∃ h g, Abstracts s h g l ∧ Counted s g := by
  constructor
  · intro s fresh
    refine ⟨.free,rfl,.nobody,.initial,⟨fresh_owned s fresh,⟨fresh_placed s fresh,fresh_linked s fresh⟩,?_,rfl,rfl⟩,
      fresh_counted s fresh⟩
    exact ⟨fun _ => rfl,rfl⟩
  · rintro s s' l a ⟨h,g,abstracts,counted⟩ moved
    obtain ⟨l',ran,after⟩ := abstracts.step moved
    exact ⟨l',ran,_,_,after,counted.step abstracts.tracked abstracts.owned moved⟩

end

/-- `t` has the mutex: it has taken it and not given it up, a thread holds it on
its behalf, or its handle was submitted with it. -/
def State.Owner (s : State Coro Ctx Cv Shared) (t : Coro) : Prop :=
  s.owns t = true ∨ (∃ u, (s.pc u).holding = true ∧ s.behalf u = t) ∨ ∃ x, t ∈ s.contexts.taskQueue x

/-- The list from `m_resume_list_head`, or the one that an `unlock` in progress
holds locally, in the order of the resumes. -/
def State.Resumes (s : State Coro Ctx Cv Shared) (l : List Addr) : Prop :=
  (∀ t, (s.pc t).reversing = false) ∧ Chain s.next s.resumeListHead l ∨
    (∃ t awaiter toResume caller left turned, s.pc t = .unlockReverse awaiter toResume caller ∧
      Chain s.next (some awaiter) left ∧ Chain s.next toResume turned ∧ l = left.reverse ++ turned) ∨
    ∃ t toResume caller, s.pc t = .unlockPop toResume caller ∧ Chain s.next (some toResume) l

/-- Where the awaiter `a` of a coroutine suspended in `lock` is: in the queue,
handed the mutex by a running `unlock`, or submitted, once. -/
def State.Whereabouts (s : State Coro Ctx Cv Shared) (queue : List Addr) (t : Coro) (a : Addr) : Prop :=
  s.submissions a = 0 ∧ (∀ x, t ∉ s.contexts.taskQueue x) ∧
      (a ∈ queue ∨ ∃ u caller, s.pc u = .resume a caller ∨ s.pc u = .submitTask a caller) ∨
    s.submissions a = 1 ∧ a ∉ queue ∧ ∃ x, s.contexts.taskQueue x = [t] ∧ ∀ y, y ≠ x → s.contexts.taskQueue y = []

structure FifoLocked (s : State Coro Ctx Cv Shared) (l : FifoLock Coro) : Prop where
  owner : ∀ t, s.Owner t ↔ l.owner = some t
  free : s.state = .nolocked ↔ l.owner = none
  bare : l.owner = none → l.queue = []
  order : l.requested = l.granted ++ l.queue
  waiters : ∃ ready chain, s.Resumes ready ∧ Chain s.next s.state.next chain ∧ (ready ++ chain.reverse).Nodup ∧
    l.queue = (ready ++ chain.reverse).map s.awaitCoro ∧
    (∀ a ∈ ready ++ chain.reverse, (s.pc (s.awaitCoro a)).self = some a ∧ s.submissions a = 0) ∧
    ∀ t a, s.pc t = .suspended a → s.kind a = .lock → s.Whereabouts (ready ++ chain.reverse) t a
  asserts : ∀ t, s.pc t ≠ .aborted

section
variable {s : State Coro Ctx Cv Shared} {h : Holder Coro} {g : Lists Coro Cv} {l : FifoLock Coro}

omit [DecidableEq Coro] [DecidableEq Ctx] [DecidableEq Cv] in
theorem Owned.owner_iff (owned : Owned s h) (t : Coro) : s.Owner t ↔ h.owner s = some t := by
  cases h with
  | nobody =>
    simp only [Holder.owner,reduceCtorEq,iff_false]
    rintro (owns | ⟨u,holding,_⟩ | ⟨x,member⟩)
    · exact absurd (owned.owner t owns).1 (by simp)
    · exact absurd (owned.holds u holding) (by simp)
    · rw [owned.empty (by simp)] at member
      contradiction
  | thread u =>
    simp only [Holder.owner,Option.some.injEq]
    constructor
    · rintro (owns | ⟨v,holding,rfl⟩ | ⟨x,member⟩)
      · obtain ⟨same,outside⟩ := owned.owner t owns
        cases same
        exact behalf_outside outside
      · cases owned.holds v holding
        rfl
      · rw [owned.empty (by simp)] at member
        contradiction
    · rintro rfl
      rcases owned.held u rfl with owns | holding
      · rw [behalf_outside (owned.owner u owns).2]
        exact .inl owns
      · exact .inr (.inl ⟨u,holding,rfl⟩)
  | handle u =>
    simp only [Holder.owner,Option.some.injEq]
    obtain ⟨x,single,empty⟩ := owned.submitted u rfl
    constructor
    · rintro (owns | ⟨v,holding,_⟩ | ⟨y,member⟩)
      · exact absurd (owned.owner t owns).1 (by simp)
      · exact absurd (owned.holds v holding) (by simp)
      · by_cases same : y = x
        · rw [same,single,List.mem_singleton] at member
          exact member.symm
        · rw [empty y same] at member
          contradiction
    · rintro rfl
      exact .inr (.inr ⟨x,by simp [single]⟩)

omit [DecidableEq Coro] [DecidableEq Ctx] [DecidableEq Cv] in
theorem Linked.resumes (linked : Linked s g) : s.Resumes g.ready := by
  by_cases quiet : ∀ t, (s.pc t).reversing = false
  · exact .inl ⟨quiet,linked.resumeList quiet⟩
  · obtain ⟨t,turns⟩ := not_forall.mp quiet
    cases pc : s.pc t with
    | unlockReverse awaiter toResume caller =>
      obtain ⟨left,turned,chains⟩ := linked.reverse t awaiter toResume caller pc
      exact .inr (.inl ⟨t,awaiter,toResume,caller,left,turned,pc,chains⟩)
    | unlockPop toResume caller => exact .inr (.inr ⟨t,toResume,caller,pc,linked.pop t toResume caller pc⟩)
    | _ => simp [pc,Pc.reversing] at turns

omit [DecidableEq Coro] [DecidableEq Ctx] [DecidableEq Cv] in
private theorem Linked.mem_queue (linked : Linked s g) (a : Addr) :
    a ∈ g.queue ↔ g.place a = .resumeList ∨ g.place a = .state := by
  rw [Lists.queue,List.mem_append,List.mem_reverse,linked.inReady,linked.inChain]

omit [DecidableEq Coro] [DecidableEq Ctx] [DecidableEq Cv] in
private theorem Linked.nodup_queue (linked : Linked s g) : g.queue.Nodup := by
  refine List.nodup_append.mpr ⟨linked.readyNodup,List.nodup_reverse.mpr linked.chain.nodup,?_⟩
  rintro a ready b chain rfl
  rw [linked.inReady] at ready
  rw [List.mem_reverse,linked.inChain,ready] at chain
  contradiction

omit [DecidableEq Coro] [DecidableEq Ctx] [DecidableEq Cv] in
theorem Tracked.queued_place (tracked : Tracked s g) {t : Coro} {a : Addr} (pc : s.pc t = .suspended a) {x : Ctx}
    (member : t ∈ s.contexts.taskQueue x) : g.place a = .submitted := by
  obtain ⟨b,place,coro,_⟩ := tracked.placed.queued t x member
  obtain ⟨waits,_⟩ := tracked.placed.submitted b place
  rw [coro,pc] at waits
  rw [Pc.suspended.inj waits]
  exact place

omit [DecidableEq Coro] [DecidableEq Ctx] [DecidableEq Cv] in
theorem Tracked.submitted_single (tracked : Tracked s g) (owned : Owned s h) {a : Addr} (place : g.place a = .submitted) :
    s.contexts.taskQueue (s.ctx a) = [s.awaitCoro a] ∧ ∀ y, y ≠ s.ctx a → s.contexts.taskQueue y = [] := by
  obtain ⟨asleep,x,member⟩ := tracked.placed.submitted a place
  obtain ⟨b,there,coro,rfl⟩ := tracked.placed.queued _ x member
  obtain ⟨asleep',_⟩ := tracked.placed.submitted b there
  rw [coro,asleep] at asleep'
  obtain rfl := Pc.suspended.inj asleep'
  obtain ⟨front,rest,queue⟩ := List.exists_cons_of_ne_nil (List.ne_nil_of_mem member)
  obtain ⟨_,rfl,empty⟩ := owned.handle queue
  rw [queue,List.mem_singleton] at member
  exact ⟨by rw [queue,member],empty⟩

omit [DecidableEq Coro] [DecidableEq Ctx] [DecidableEq Cv] in
theorem Counted.zero (counted : Counted s g) (tracked : Tracked s g) {a : Addr} (gone : g.place a ≠ .gone)
    (submitted : g.place a ≠ .submitted) (hand : ∀ t, s.pc t = .awaitResume a → g.place a ≠ .hand t) : s.submissions a = 0 := by
  refine counted.waiting a gone submitted fun resumes => ?_
  exact hand _ resumes ((tracked.placed.hand _ a).mp (by rw [resumes]; rfl))

omit [DecidableEq Coro] [DecidableEq Ctx] [DecidableEq Cv] in
theorem Tracked.resuming (tracked : Tracked s g) (counted : Counted s g) {t u : Coro} {a : Addr}
    (pc : s.pc t = .suspended a) (plain : s.kind a = .lock) (hand : (s.pc u).hand = some a) :
    ∃ caller, s.pc u = .resume a caller ∨ s.pc u = .submitTask a caller := by
  obtain ⟨_,coro⟩ := tracked.placed.live t a (by rw [pc]; rfl)
  have foreign : (s.pc u).self ≠ some a := by
    intro self
    have same := (tracked.placed.live u a self).2
    rw [coro] at same
    rw [← same,pc] at hand
    contradiction
  have unwoken : (s.pc u).waking ≠ some a := fun wakes => counted.woken u a wakes plain
  have unlisted : ∀ k f, (s.pc u).registering ≠ some (a,k,f) := by
    intro k f registers
    obtain ⟨⟨c,wait⟩,_⟩ := tracked.placed.registering u a k f registers
    rw [plain] at wait
    contradiction
  cases here : s.pc u with
  | resume b caller => rw [here] at hand; cases hand; exact ⟨caller,.inl rfl⟩
  | submitTask b caller => rw [here] at hand; cases hand; exact ⟨caller,.inr rfl⟩
  | loadState b waker | compareExchange b state waker =>
    cases waker <;> simp_all [Pc.hand,Pc.self,Pc.waking]
  | _ => simp_all [Pc.hand,Pc.self,Pc.waking,Pc.registering]

omit [DecidableEq Coro] [DecidableEq Ctx] [DecidableEq Cv] in
private theorem Tracked.whereabouts (tracked : Tracked s g) (owned : Owned s h) (counted : Counted s g) (t : Coro) (a : Addr)
    (pc : s.pc t = .suspended a) (plain : s.kind a = .lock) : s.Whereabouts g.queue t a := by
  obtain ⟨live,coro⟩ := tracked.placed.live t a (by rw [pc]; rfl)
  have absent : g.place a ≠ .submitted → ∀ x, t ∉ s.contexts.taskQueue x := fun other x member =>
    other (tracked.queued_place pc member)
  have zero : g.place a ≠ .submitted → s.submissions a = 0 := fun other => by
    refine counted.waiting a (by rw [Ne,tracked.placed.gone,live]; simp) other ?_
    rw [coro,pc]; simp
  cases place : g.place a with
  | gone => rw [(tracked.placed.gone a).mp place] at live; contradiction
  | state => exact .inl ⟨zero (by simp [place]),absent (by simp [place]),.inl ((tracked.linked.mem_queue a).mpr (.inr place))⟩
  | resumeList => exact .inl ⟨zero (by simp [place]),absent (by simp [place]),.inl ((tracked.linked.mem_queue a).mpr (.inl place))⟩
  | cv k =>
    obtain ⟨c,wait⟩ := tracked.placed.kind a k place
    rw [plain] at wait
    contradiction
  | snapshot u => exact absurd plain (counted.detached u a place)
  | hand u =>
    obtain ⟨caller,handed⟩ := tracked.resuming counted pc plain ((tracked.placed.hand u a).mpr place)
    exact .inl ⟨zero (by simp [place]),absent (by simp [place]),.inr ⟨u,caller,handed⟩⟩
  | submitted =>
    refine .inr ⟨counted.submitted a place,?_,coro ▸ ⟨_,tracked.submitted_single owned place⟩⟩
    rw [tracked.linked.mem_queue,place]
    simp

omit [DecidableEq Coro] [DecidableEq Ctx] [DecidableEq Cv] in
private theorem Abstracts.fifoLocked (abstracts : Abstracts s h g l) (counted : Counted s g) : FifoLocked s l := by
  have owned := abstracts.owned
  have tracked := abstracts.tracked
  refine ⟨?_,?_,abstracts.fair.1,abstracts.fair.2,⟨g.ready,g.chain,tracked.linked.resumes,tracked.linked.chain,
    tracked.linked.nodup_queue,abstracts.queue,?_,tracked.whereabouts owned counted⟩,?_⟩
  · intro t
    rw [owned.owner_iff,abstracts.owner]
  · exact ⟨fun free => (abstracts.free free).1,fun none => by_contra fun locked => abstracts.held locked none⟩
  · intro a member
    have place := (tracked.linked.mem_queue a).mp member
    refine ⟨tracked.placed.self a (tracked.queue_live member),?_⟩
    rcases place with here | here
    · exact counted.zero tracked (by simp [here]) (by simp [here]) (by simp [here])
    · exact counted.zero tracked (by simp [here]) (by simp [here]) (by simp [here])
  · exact fun t aborted => (owned.exchanging t (by rw [aborted]; rfl)).1 aborted

/-- In every run the operations on `m_state` are a run of the lock that is granted
first come, first served, and the mutex is in the state of that lock. -/
theorem refines_fifo_lock (s₀ s : State Coro Ctx Cv Shared) (actions : List (Action Coro Ctx Cv Shared))
    (fresh : Fresh s₀) (ran : (machine Coro Ctx Cv Shared).run s₀ actions = some s) :
    ∃ l, (FifoLock.machine Coro).run .free ((machine Coro Ctx Cv Shared).trace shows s₀ actions) = some l ∧ FifoLocked s l := by
  obtain ⟨l₀,rfl,together⟩ := simulates.start s₀ fresh
  obtain ⟨l,shown,h,g,abstracts,counted⟩ := simulates.run actions s₀ s .free together ran
  exact ⟨l,shown,abstracts.fifoLocked counted⟩

end

/-- A coroutine takes the mutex, another one waits for it, and `unlock` hands it over. -/
def handOver : List (Action Bool Unit Unit Bool) :=
  [.lock false 0 (),.step false,.step false,.step false,.step false,.lock true 1 (),.step true,.step true,.step true,
    .unlock false,.step false,.step false,.step false,.step false,.step false,.step false,.step false,.step false,
    .exec (),.step true]

theorem hand_over_refines_fifo_lock : ∃ s l, (machine Bool Unit Unit Bool).run initial handOver = some s ∧
    s.owns true = true ∧
    (FifoLock.machine Bool).run .free ((machine Bool Unit Unit Bool).trace shows initial handOver) = some l ∧
    FifoLocked s l := by
  have owns : ((machine Bool Unit Unit Bool).run initial handOver).map (fun s => s.owns true) = some true := by decide
  obtain ⟨s,ran,owner⟩ := Option.map_eq_some_iff.mp owns
  obtain ⟨l,shown,locked⟩ := refines_fifo_lock initial s handOver initial_fresh ran
  exact ⟨s,l,ran,owner,shown,locked⟩

end TinyCoro.Mutex
