import TinyCoro.Comp.EventSet
import TinyCoro.Comp.WaitGroupDrain
import TinyCoro.Comp.CondVarReady

/-! Which awaiters a step of the components reads or writes. An awaiter dies with
the full expression of its coroutine, which may run as soon as its handle is in a
task queue; every awaiter that a step touches is alive, and no step depends on a dead one. -/
namespace TinyCoro
open Library TwoParties

namespace Event
variable {V Coro Ctx : Type} [DecidableEq Coro] [DecidableEq Ctx]

/-- The awaiter whose fields the next step at this point reads or writes. -/
def Pc.touched : Pc → Option Addr
  | .drain waiter => waiter
  | .resume cur _ => some cur
  | .suspended _ => none
  | pc => pc.awaiter

def State.overwrite (s : State V Coro Ctx) (a : Addr) (x : Ctx) (next : Option Addr) (handle : Coro) : State V Coro Ctx :=
  { s with
    ctx := Function.update s.ctx a x
    next := Function.update s.next a next
    awaitCoro := Function.update s.awaitCoro a handle }

private theorem advance_overwrite (s : State V Coro Ctx) (t : Coro) (a : Addr) (untouched : (s.pc t).touched ≠ some a)
    (x : Ctx) (next : Option Addr) (handle : Coro) :
    advance (s.overwrite a x next handle) t = (advance s t).map fun s' => s'.overwrite a x next handle := by
  cases pc : s.pc t with
  | idle | suspended b => simp [advance,State.overwrite,pc]
  | exchange => cases state : s.state <;> simp [advance,State.overwrite,State.goto,pc,state]
  | registerWait b | awaitResume b | resume b n =>
    have other : b ≠ a := by simpa [pc,Pc.touched,Pc.awaiter] using untouched
    simp [advance,State.overwrite,State.goto,pc,other]
  | isSet b => by_cases isSet : s.state = .set <;> simp [advance,State.overwrite,State.goto,pc,isSet]
  | loadState b =>
    have other : b ≠ a := by simpa [pc,Pc.touched,Pc.awaiter] using untouched
    cases state : s.state <;> simp [advance,State.overwrite,State.goto,pc,state,Function.update_comm other]
  | compareExchange b oldValue =>
    by_cases same : s.state = .waiting oldValue <;> simp [advance,State.overwrite,State.goto,pc,same]
  | drain waiter =>
    cases waiter with
    | none => simp [advance,State.overwrite,State.goto,pc]
    | some b =>
      have other : b ≠ a := by simpa [pc,Pc.touched] using untouched
      simp [advance,State.overwrite,State.goto,pc,other]

/-- Every awaiter that a coroutine is about to touch is alive, and what is left of a dead one
makes no difference to a step. -/
structure TouchesLive (s : State V Coro Ctx) : Prop where
  alive : ∀ t a, (s.pc t).touched = some a → s.live a = true
  dead : ∀ t a, s.live a = false → ∀ x next handle,
    advance (s.overwrite a x next handle) t = (advance s t).map fun s' => s'.overwrite a x next handle

private theorem stage_touches {p : Pc} {a : Addr} (touched : p.touched = some a) :
    p.stage.waiter = some a ∨ p.stage.detached = some a := by
  cases p with
  | idle | suspended b | exchange => contradiction
  | drain waiter | resume cur next => exact .inr touched
  | _ => exact .inl touched

private theorem Linked.touchesLive {s : State V Coro Ctx} (linked : Linked s) : TouchesLive s := by
  have alive : ∀ t a, (s.pc t).touched = some a → s.live a = true :=
    fun t a touched => linked.waiters.live (t := t) (stage_touches touched)
  refine ⟨alive,fun t a dead => advance_overwrite s t a fun touched => ?_⟩
  rw [alive t a touched] at dead
  contradiction

end Event

namespace WaitGroup
variable {Coro Ctx : Type} [DecidableEq Coro] [DecidableEq Ctx]

/-- The awaiter whose fields the next step at this point reads or writes. -/
def Pc.touched : Pc → Option Addr
  | .drain head => head
  | .resume head _ => some head
  | .suspended _ => none
  | pc => pc.awaiter

def State.overwrite (s : State Coro Ctx) (a : Addr) (x : Ctx) (next : Option Addr) (handle : Coro) : State Coro Ctx :=
  { s with
    ctx := Function.update s.ctx a x
    next := Function.update s.next a next
    awaitCoro := Function.update s.awaitCoro a handle }

private theorem advance_overwrite (s : State Coro Ctx) (t : Coro) (a : Addr) (untouched : (s.pc t).touched ≠ some a)
    (x : Ctx) (next : Option Addr) (handle : Coro) :
    advance (s.overwrite a x next handle) t = (advance s t).map fun s' => s'.overwrite a x next handle := by
  cases pc : s.pc t with
  | idle | suspended b | exchange => simp [advance,State.overwrite,State.goto,pc]
  | registerWait b | awaitResume b | resume b n =>
    have other : b ≠ a := by simpa [pc,Pc.touched,Pc.awaiter] using untouched
    simp [advance,State.overwrite,State.goto,pc,other]
  | loadCount b => by_cases zero : s.count = 0 <;> simp [advance,State.overwrite,State.goto,pc,zero]
  | loadState b =>
    have other : b ≠ a := by simpa [pc,Pc.touched,Pc.awaiter] using untouched
    simp [advance,State.overwrite,State.goto,pc,Function.update_comm other]
  | compareExchange b head =>
    by_cases same : s.state = head <;> simp [advance,State.overwrite,State.goto,pc,same]
  | drain head =>
    cases head with
    | none => simp [advance,State.overwrite,State.goto,pc]
    | some b =>
      have other : b ≠ a := by simpa [pc,Pc.touched] using untouched
      simp [advance,State.overwrite,State.goto,pc,other]

/-- Every awaiter that a coroutine is about to touch is alive, and what is left of a dead one
makes no difference to a step. -/
structure TouchesLive (s : State Coro Ctx) : Prop where
  alive : ∀ t a, (s.pc t).touched = some a → s.live a = true
  dead : ∀ t a, s.live a = false → ∀ x next handle,
    advance (s.overwrite a x next handle) t = (advance s t).map fun s' => s'.overwrite a x next handle

private theorem stage_touches {p : Pc} {a : Addr} (touched : p.touched = some a) :
    p.stage.waiter = some a ∨ p.stage.detached = some a := by
  cases p with
  | idle | suspended b | exchange => contradiction
  | drain head | resume head next => exact .inr touched
  | _ => exact .inl touched

private theorem Linked.touchesLive {s : State Coro Ctx} (linked : Linked s) : TouchesLive s := by
  have alive : ∀ t a, (s.pc t).touched = some a → s.live a = true :=
    fun t a touched => WaitList.Linked.live linked (t := t) (stage_touches touched)
  refine ⟨alive,fun t a dead => advance_overwrite s t a fun touched => ?_⟩
  rw [alive t a touched] at dead
  contradiction

end WaitGroup

namespace Mutex
variable {Coro Ctx Cv Shared : Type} [DecidableEq Coro] [DecidableEq Ctx] [DecidableEq Cv]

/-- The awaiter whose `m_mtx` a call of `unlock` reads. -/
def Frame.mtx : Frame Cv → Option Addr
  | .awaitSuspend self | .resume self _ => some self
  | _ => none

def State.touched (s : State Coro Ctx Cv Shared) (t : Coro) : List Addr :=
  match s.pc t with
  | .unlock caller => caller.mtx.toList
  | .unlockHead _ => s.resumeListHead.toList
  | .unlockReverse awaiter _ _ => [awaiter]
  | .unlockPop toResume _ => [toResume]
  | .cvLink self cv _ => self::(s.tail cv).toList
  | .cvUnlock self _ _ => [self]
  | .oneTake cv => (s.head cv).toList
  | .oneUnlock _ _ => []
  | .allLoop _ curHead => curHead.toList
  | pc => pc.hand.toList

def State.overwrite (s : State Coro Ctx Cv Shared) (a : Addr) (x : Ctx) (next : Option Addr) (handle : Coro)
    (kind : Kind Cv Shared) (suspendState : Bool) : State Coro Ctx Cv Shared :=
  { s with
    ctx := Function.update s.ctx a x
    next := Function.update s.next a next
    awaitCoro := Function.update s.awaitCoro a handle
    kind := Function.update s.kind a kind
    suspendState := Function.update s.suspendState a suspendState }

private theorem advance_overwrite (s : State Coro Ctx Cv Shared) (t : Coro) (a : Addr) (untouched : a ∉ s.touched t)
    (x : Ctx) (next : Option Addr) (handle : Coro) (kind : Kind Cv Shared) (suspendState : Bool) :
    advance (s.overwrite a x next handle kind suspendState) t =
      (advance s t).map fun s' => s'.overwrite a x next handle kind suspendState := by
  cases pc : s.pc t with
  | idle | suspended b | aborted => simp [advance,State.overwrite,pc]
  | unlock caller =>
    by_cases unlocked : s.state = .nolocked <;> simp [advance,State.overwrite,State.goto,pc,unlocked]
  | unlockCompareExchange caller =>
    by_cases alone : s.state = lockedNoWaiting <;> simp [advance,State.overwrite,State.goto,pc,alone]
  | oneUnlock cv cur | allTake cv | allUnlock cv curHead => simp [advance,State.overwrite,State.goto,pc]
  | cvUnlock b cv caller => simp [advance,State.overwrite,State.goto,pc]
  | cvLock b cv caller | oneLock cv | allLock cv =>
    cases locked : s.lock cv <;> simp [advance,State.overwrite,State.goto,pc,locked]
  | registerWait b | submitTask b caller =>
    have other : b ≠ a := by rintro rfl; simp [State.touched,pc,Pc.hand] at untouched
    simp [advance,State.overwrite,State.goto,pc,other]
  | loadState b waker | unlockReverse b toResume caller | unlockPop b caller =>
    have other : b ≠ a := by rintro rfl; simp [State.touched,pc,Pc.hand] at untouched
    simp [advance,State.overwrite,State.goto,pc,other,Function.update_comm other]
  | awaitResume b =>
    have other : b ≠ a := by rintro rfl; simp [State.touched,pc,Pc.hand] at untouched
    simp [advance,State.overwrite,State.goto,State.registered,pc,other]
  | compareExchange b state waker =>
    by_cases same : s.state = state
    · cases state <;> simp [advance,State.overwrite,State.goto,pc,same]
    · simp [advance,State.overwrite,State.goto,pc,same]
  | unlockHead caller =>
    cases head : s.resumeListHead with
    | none => simp [advance,State.overwrite,State.goto,pc,head]
    | some b =>
      have other : b ≠ a := by rintro rfl; simp [State.touched,pc,head] at untouched
      simp [advance,State.overwrite,State.goto,pc,head,other]
  | unlockExchange caller =>
    cases state : s.state with
    | nolocked => simp [advance,State.overwrite,State.goto,pc,state]
    | locked head => cases head <;> simp [advance,State.overwrite,State.goto,pc,state]
  | resume b caller | cvAwaitSuspend b =>
    have other : b ≠ a := by rintro rfl; simp [State.touched,pc,Pc.hand] at untouched
    cases same : s.kind b <;> simp [advance,State.overwrite,State.goto,State.ready,pc,same,other]
  | cvRegisterWait b cv caller =>
    have other : b ≠ a := by rintro rfl; simp [State.touched,pc,Pc.hand] at untouched
    simp [advance,State.overwrite,State.goto,pc,other,Function.update_comm other]
  | cvLink b cv caller =>
    cases tail : s.tail cv with
    | none => simp [advance,State.overwrite,State.goto,pc,tail]
    | some c =>
      have other : c ≠ a := by rintro rfl; simp [State.touched,pc,tail] at untouched
      simp [advance,State.overwrite,State.goto,pc,tail,Function.update_comm other]
  | oneTake cv =>
    cases head : s.head cv with
    | none => simp [advance,State.overwrite,State.goto,pc,head]
    | some b =>
      have other : b ≠ a := by rintro rfl; simp [State.touched,pc,head] at untouched
      simp [advance,State.overwrite,State.goto,pc,head,other]
  | allLoop cv curHead =>
    cases curHead with
    | none => simp [advance,State.overwrite,State.goto,pc]
    | some b =>
      have other : b ≠ a := by rintro rfl; simp [State.touched,pc] at untouched
      simp [advance,State.overwrite,State.goto,pc,other]

/-- Every awaiter that a coroutine is about to touch is alive, and what is left of a dead one
makes no difference to a step. -/
structure TouchesLive (s : State Coro Ctx Cv Shared) : Prop where
  alive : ∀ t, ∀ a ∈ s.touched t, s.live a = true
  dead : ∀ t a, s.live a = false → ∀ x next handle kind suspendState,
    advance (s.overwrite a x next handle kind suspendState) t =
      (advance s t).map fun s' => s'.overwrite a x next handle kind suspendState

section
variable {s : State Coro Ctx Cv Shared} {h : Holder Coro} {g : Lists Coro Cv} {t : Coro} {a : Addr}

omit [DecidableEq Coro] [DecidableEq Ctx] [DecidableEq Cv] in
private theorem Placed.live_of_listed {place : Addr → Place Coro Cv} (placed : Placed s place) (listed : (place a).listed = true) :
    s.live a = true := by
  by_contra dead
  have gone := (placed.gone a).mpr (by simpa using dead)
  simp [gone,Place.listed] at listed

omit [DecidableEq Coro] [DecidableEq Ctx] [DecidableEq Cv] in
private theorem Tracked.ready_live (tracked : Tracked s g) (member : a ∈ g.ready) : s.live a = true :=
  tracked.placed.live_of_listed (by rw [(tracked.linked.inReady a).mp member]; rfl)

omit [DecidableEq Coro] [DecidableEq Ctx] [DecidableEq Cv] in
private theorem Tracked.waiting_live (tracked : Tracked s g) {k : Cv} (member : a ∈ g.waiting k) : s.live a = true :=
  tracked.placed.live_of_listed (by rw [(tracked.linked.inWaiting k a).mp member]; rfl)

omit [DecidableEq Coro] [DecidableEq Ctx] [DecidableEq Cv] in
private theorem Tracked.detached_live (tracked : Tracked s g) (first : (s.pc t).detached = some a) : s.live a = true := by
  have chain := tracked.linked.snapshot t
  rw [first] at chain
  obtain ⟨rest,front,_⟩ := Chain.some_iff.mp chain
  have place := (tracked.linked.inSnapshot t a).mp (by simp [front])
  exact tracked.placed.live_of_listed (by rw [place]; rfl)

omit [DecidableEq Coro] [DecidableEq Ctx] [DecidableEq Cv] in
/-- The caller of `unlock` cannot be resumed before the mutex is given up. -/
theorem Tracked.mtx_live (tracked : Tracked s g) {caller : Frame Cv} (pc : s.pc t = .unlock caller)
    (reads : caller.mtx = some a) : s.live a = true := by
  cases caller with
  | user | notifyAll cv nxt => contradiction
  | awaitSuspend self =>
    cases reads
    exact (tracked.placed.live t a (by rw [pc]; rfl)).1
  | resume self caller =>
    cases reads
    exact tracked.placed.behalf t a caller (by rw [pc]; rfl) (by rw [pc]; rfl)

omit [DecidableEq Coro] [DecidableEq Ctx] [DecidableEq Cv] in
/-- The thread that gives the mutex up is the only one that reverses the list. -/
theorem Owned.none_reversing (owned : Owned s h) {caller : Frame Cv} (pc : s.pc t = .unlockHead caller) (u : Coro) :
    (s.pc u).reversing = false := by
  by_contra reverses
  have holds : (s.pc u).holding = true := by cases there : s.pc u <;> simp_all [Pc.reversing,Pc.holding]
  have same := (owned.holds t (by rw [pc]; rfl)).symm.trans (owned.holds u holds)
  cases same
  simp [pc,Pc.reversing] at reverses

omit [DecidableEq Coro] [DecidableEq Ctx] [DecidableEq Cv] in
private theorem Tracked.touched_live (tracked : Tracked s g) (owned : Owned s h) (t : Coro) (a : Addr) (touched : a ∈ s.touched t) :
    s.live a = true := by
  have hand : (s.pc t).hand = some a → s.live a = true := tracked.placed.live_of_hand
  cases pc : s.pc t with
  | unlock caller =>
    simp only [State.touched,pc,Option.mem_toList] at touched
    exact tracked.mtx_live pc touched
  | unlockHead caller =>
    simp only [State.touched,pc,Option.mem_toList] at touched
    have chain := tracked.linked.resumeList (owned.none_reversing pc)
    rw [touched] at chain
    obtain ⟨rest,front,_⟩ := Chain.some_iff.mp chain
    exact tracked.ready_live (by simp [front])
  | unlockReverse awaiter toResume caller =>
    simp only [State.touched,pc,List.mem_singleton] at touched
    subst touched
    obtain ⟨left,turned,ahead,_,ready⟩ := tracked.linked.reverse t a toResume caller pc
    obtain ⟨rest,front,_⟩ := Chain.some_iff.mp ahead
    exact tracked.ready_live (by simp [ready,front])
  | unlockPop toResume caller =>
    simp only [State.touched,pc,List.mem_singleton] at touched
    subst touched
    obtain ⟨rest,front,_⟩ := Chain.some_iff.mp (tracked.linked.pop t a caller pc)
    exact tracked.ready_live (by simp [front])
  | cvLink self cv caller =>
    simp only [State.touched,pc,List.mem_cons,Option.mem_toList] at touched
    rcases touched with rfl | last
    · exact hand (by rw [pc]; rfl)
    · rw [tracked.linked.tail cv] at last
      exact tracked.waiting_live (List.mem_of_getLast? last)
  | cvUnlock self cv caller =>
    simp only [State.touched,pc,List.mem_singleton] at touched
    subst touched
    exact tracked.placed.live_of_registering (by rw [pc]; rfl)
  | oneTake cv =>
    simp only [State.touched,pc,Option.mem_toList] at touched
    have chain := tracked.linked.waiting cv
    rw [touched] at chain
    obtain ⟨rest,front,_⟩ := Chain.some_iff.mp chain
    exact tracked.waiting_live (by rw [front]; simp)
  | allLoop cv curHead =>
    simp only [State.touched,pc,Option.mem_toList] at touched
    exact tracked.detached_live (by rw [pc]; exact touched)
  | oneUnlock cv cur => simp [State.touched,pc] at touched
  | _ =>
    simp only [State.touched,pc,Option.mem_toList] at touched
    exact hand (by rw [pc]; exact touched)

private theorem Tracked.touchesLive (tracked : Tracked s g) (owned : Owned s h) : TouchesLive s := by
  refine ⟨tracked.touched_live owned,fun t a dead => advance_overwrite s t a fun touched => ?_⟩
  rw [tracked.touched_live owned t a touched] at dead
  contradiction

end
end Mutex

/-- Event, wait group, mutex and condition variables: in every run each step works on living
awaiters only, whatever the storage of the dead ones holds. -/
theorem awaiters_touched_alive (V Coro Ctx Cv Shared : Type) [DecidableEq Coro] [DecidableEq Ctx] [DecidableEq Cv] :
    (∀ s, (Event.machine V Coro Ctx).Reachable s → Event.TouchesLive s) ∧
    (∀ s, (WaitGroup.machine Coro Ctx).Reachable s → WaitGroup.TouchesLive s) ∧
    ∀ s, (Mutex.machine Coro Ctx Cv Shared).Reachable s → Mutex.TouchesLive s := by
  refine ⟨?_,?_,?_⟩
  · exact fun s reachable => (Event.reachable_linked s reachable).touchesLive
  · exact fun s reachable => (WaitGroup.reachable_linked s reachable).touchesLive
  · intro s reachable
    obtain ⟨h,g,owned,tracked⟩ := Mutex.reachable_tracked s reachable
    exact tracked.touchesLive owned

/-- One waiter of the event is linked, and the first `set` has detached it. -/
def eventDetached : List (Event.Action Nat Bool Unit) :=
  [.wait false 0 (),.step false,.step false,.step false,.step false,.set true (some 7),.step true]

/-- One waiter of the wait group is linked, and the last `done` has detached it. -/
def waitGroupDetached : List (WaitGroup.Action (Fin 2) Unit) :=
  [.wait 0 0 (),.step 0,.step 0,.step 0,.step 0,.done 1,.step 1]

/-- A waiter with a false predicate is notified, takes the mutex on the notifying
thread and registers again; that thread is about to give the mutex up for it. -/
def wokenOnBehalf : List (Mutex.Action Bool Unit Unit Bool) :=
  [Mutex.Action.lock false 0 (),.step false,.step false,.step false,.step false,.wait false 1 () () (some id)] ++
    List.replicate 8 (Mutex.Action.step false) ++ [Mutex.Action.notifyOne true ()] ++
    List.replicate 10 (Mutex.Action.step true)

theorem detached_awaiters_alive :
    (∃ s, (Event.machine Nat Bool Unit).run (Event.initial false) eventDetached = some s ∧
      (s.pc true).touched = some 0 ∧ s.live 0 = true) ∧
    (∃ s, (WaitGroup.machine (Fin 2) Unit).run WaitGroup.single waitGroupDetached = some s ∧
      (s.pc 1).touched = some 0 ∧ s.live 0 = true) ∧
    ∃ s, (Mutex.machine Bool Unit Unit Bool).run Mutex.initial wokenOnBehalf = some s ∧
      s.touched true = [1] ∧ s.live 1 = true := by
  refine ⟨?_,?_,?_⟩
  · have ran : (((Event.machine Nat Bool Unit).run (Event.initial false) eventDetached).map
        fun s => (s.pc true).touched) = some (some 0) := by decide
    obtain ⟨s,reached,touched⟩ := Option.map_eq_some_iff.mp ran
    have reachable := Machine.run_reachable _ _ _ _ (.start (Event.initial_fresh false)) reached
    exact ⟨s,reached,touched,((awaiters_touched_alive Nat Bool Unit Unit Bool).1 s reachable).alive true 0 touched⟩
  · have ran : (((WaitGroup.machine (Fin 2) Unit).run WaitGroup.single waitGroupDetached).map
        fun s => (s.pc 1).touched) = some (some 0) := by decide
    obtain ⟨s,reached,touched⟩ := Option.map_eq_some_iff.mp ran
    have reachable := Machine.run_reachable _ _ _ _ (.start WaitGroup.single_fresh) reached
    exact ⟨s,reached,touched,((awaiters_touched_alive Nat (Fin 2) Unit Unit Bool).2.1 s reachable).alive 1 0 touched⟩
  · have ran : (((Mutex.machine Bool Unit Unit Bool).run Mutex.initial wokenOnBehalf).map fun s => s.touched true) =
        some [1] := by decide
    obtain ⟨s,reached,touched⟩ := Option.map_eq_some_iff.mp ran
    have reachable := Machine.run_reachable _ _ _ _ (.start Mutex.initial_fresh) reached
    exact ⟨s,reached,touched,((awaiters_touched_alive Nat Bool Unit Unit Bool).2.2 s reachable).alive true 1 (by simp [touched])⟩

end TinyCoro
