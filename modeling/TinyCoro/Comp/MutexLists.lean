import TinyCoro.Library.Chain
import TinyCoro.Comp.MutexOwner

/-! Where every awaiter of the mutex and of its condition variables is: in one of
the lists, in the hands of one thread, or submitted. -/
namespace TinyCoro.Mutex
open Library

inductive Place (Coro Cv : Type)
  | gone
  | state
  | resumeList
  | cv (k : Cv)
  | snapshot (t : Coro)
  | hand (t : Coro)
  | submitted
  deriving DecidableEq

def Place.listed {Coro Cv : Type} : Place Coro Cv → Bool
  | .gone | .hand _ | .submitted => false
  | _ => true

/-- The lists that the pointers represent: from `m_state`, from
`m_resume_list_head` in the order of the resumes, from `m_head` of each condition
variable, and from the local pointer of each running `notify_all`. -/
structure Lists (Coro Cv : Type) where
  chain : List Addr
  ready : List Addr
  waiting : Cv → List Addr
  snapshot : Coro → List Addr
  place : Addr → Place Coro Cv

section
variable {Cv : Type}

def Frame.self : Frame Cv → Option Addr
  | .user | .notifyAll _ _ => none
  | .awaitSuspend self => some self
  | .resume _ caller => caller.self

def Frame.outer : Frame Cv → Bool
  | .user | .notifyAll _ _ => true
  | _ => false

def Frame.detached : Frame Cv → Option Addr
  | .user | .awaitSuspend _ => none
  | .notifyAll _ nxt => nxt
  | .resume _ caller => caller.detached

def Pc.frame : Pc Cv → Option (Frame Cv)
  | .loadState _ waker | .compareExchange _ _ waker => waker
  | .unlock caller | .unlockHead caller | .unlockCompareExchange caller | .unlockExchange caller
  | .unlockReverse _ _ caller | .unlockPop _ caller | .resume _ caller | .submitTask _ caller
  | .cvRegisterWait _ _ caller | .cvLock _ _ caller | .cvLink _ _ caller | .cvUnlock _ _ caller => some caller
  | _ => none

def Pc.self : Pc Cv → Option Addr
  | .suspended self | .registerWait self | .loadState self none | .compareExchange self _ none | .awaitResume self
  | .cvAwaitSuspend self => some self
  | pc => pc.frame.bind Frame.self

/-- The awaiter that only this thread works on. -/
def Pc.hand : Pc Cv → Option Addr
  | .registerWait self | .loadState self _ | .compareExchange self _ _ | .awaitResume self | .resume self _
  | .submitTask self _ | .cvAwaitSuspend self | .cvRegisterWait self _ _ | .cvLock self _ _ | .cvLink self _ _ => some self
  | .oneUnlock _ cur => cur
  | _ => none

def Pc.waker : Pc Cv → Option (Frame Cv)
  | .loadState _ waker | .compareExchange _ _ waker => waker
  | _ => none

def Pc.detached : Pc Cv → Option Addr
  | .allUnlock _ curHead | .allLoop _ curHead => curHead
  | pc => pc.frame.bind Frame.detached

def Pc.reversing : Pc Cv → Bool
  | .unlockReverse _ _ _ | .unlockPop _ _ => true
  | _ => false

def Pc.refilling : Pc Cv → Bool
  | .unlockCompareExchange _ | .unlockExchange _ | .unlockReverse _ _ _ | .unlockPop _ _ => true
  | _ => false

/-- A `cv_awaiter` on its way into the list of its condition variable. -/
def Pc.registering : Pc Cv → Option (Addr × Cv × Frame Cv)
  | .cvRegisterWait self cv caller | .cvLock self cv caller | .cvLink self cv caller
  | .cvUnlock self cv caller => some (self,cv,caller)
  | _ => none

/-- The `m_next` that the thread has written and that is not in a list yet. -/
def Pc.written : Pc Cv → Option (Addr × Option Addr)
  | .compareExchange self state _ => some (self,state.next)
  | .cvLock self _ _ | .cvLink self _ _ => some (self,none)
  | _ => none

theorem hand_of_written {pc : Pc Cv} {a : Addr} {n : Option Addr} (written : pc.written = some (a,n)) :
    pc.hand = some a := by
  cases pc with
  | compareExchange | cvLock | cvLink => simp_all [Pc.written,Pc.hand]
  | _ => simp [Pc.written] at written

theorem frame_of_registering {pc : Pc Cv} {a : Addr} {k : Cv} {f : Frame Cv} (registers : pc.registering = some (a,k,f)) :
    pc.frame = some f ∧ pc.holding = true := by
  cases pc with
  | cvRegisterWait | cvLock | cvLink | cvUnlock => simp_all [Pc.registering,Pc.frame,Pc.holding]
  | _ => simp [Pc.registering] at registers

theorem self_of_registering {pc : Pc Cv} {a : Addr} {k : Cv} (registers : pc.registering = some (a,k,.awaitSuspend a)) :
    pc.self = some a := by
  cases pc with
  | cvRegisterWait | cvLock | cvLink | cvUnlock => simp_all [Pc.registering,Pc.self,Pc.frame,Frame.self]
  | _ => simp [Pc.registering] at registers

/-- A coroutine with an awaiter is suspended at it or works on it, or it is
inside functions that hold the mutex. -/
theorem suspended_of_self {pc : Pc Cv} {a : Addr} (self : pc.self = some a) (hand : pc.hand ≠ some a)
    (holding : pc.holding = false) (waker : ∀ f, pc.waker = some f → f.outer = true) : pc = .suspended a := by
  cases pc with
  | suspended b => rw [Option.some.inj self]
  | loadState b waking | compareExchange b state waking =>
    cases waking with
    | none => exact absurd self hand
    | some f => cases f <;> simp_all [Pc.self,Pc.frame,Pc.waker,Frame.self,Frame.outer]
  | registerWait b => exact absurd self hand
  | _ => simp_all [Pc.self,Pc.frame,Pc.holding]

variable (f : Frame Cv)

@[simp] theorem finish_self : f.finish.self = f.self := by
  induction f with
  | resume _ _ ih => exact ih
  | _ => rfl

@[simp] theorem finish_hand : f.finish.hand = none := by
  induction f with
  | resume _ _ ih => exact ih
  | _ => rfl

@[simp] theorem finish_detached : f.finish.detached = f.detached := by
  induction f with
  | resume _ _ ih => exact ih
  | _ => rfl

@[simp] theorem finish_refilling : f.finish.refilling = false := by
  induction f with
  | resume _ _ ih => exact ih
  | _ => rfl

@[simp] theorem finish_written : f.finish.written = none := by
  induction f with
  | resume _ _ ih => exact ih
  | _ => rfl

@[simp] theorem finish_reversing : f.finish.reversing = false := by
  induction f with
  | resume _ _ ih => exact ih
  | _ => rfl

@[simp] theorem finish_frame : f.finish.frame = none := by
  induction f with
  | resume _ _ ih => exact ih
  | _ => rfl

@[simp] theorem finish_waker : f.finish.waker = none := by
  induction f with
  | resume _ _ ih => exact ih
  | _ => rfl

theorem finish_suspended {a : Addr} (self : f.self = some a) : f.finish = .suspended a := by
  induction f with
  | awaitSuspend b => rw [Frame.self,Option.some.injEq] at self; rw [self]; rfl
  | resume _ _ ih => exact ih self
  | _ => contradiction

@[simp] theorem finish_registering : f.finish.registering = none := by
  induction f with
  | resume _ _ ih => exact ih
  | _ => rfl

end

variable {Coro Ctx Cv Shared : Type} [DecidableEq Coro] [DecidableEq Ctx] [DecidableEq Cv]

structure Placed (s : State Coro Ctx Cv Shared) (place : Addr → Place Coro Cv) : Prop where
  live : ∀ t a, (s.pc t).self = some a → s.live a = true ∧ s.awaitCoro a = t
  self : ∀ a, s.live a = true → (s.pc (s.awaitCoro a)).self = some a
  gone : ∀ a, place a = .gone ↔ s.live a = false
  hand : ∀ t a, (s.pc t).hand = some a ↔ place a = .hand t
  submitted : ∀ a, place a = .submitted → s.pc (s.awaitCoro a) = .suspended a ∧
    ∃ x, s.awaitCoro a ∈ s.contexts.taskQueue x
  queued : ∀ t x, t ∈ s.contexts.taskQueue x → ∃ a, place a = .submitted ∧ s.awaitCoro a = t ∧ s.ctx a = x
  kind : ∀ a k, place a = .cv k → ∃ c, s.kind a = .wait k c
  registering : ∀ t a k f, (s.pc t).registering = some (a,k,f) → (∃ c, s.kind a = .wait k c) ∧
    (f = .awaitSuspend a ∨ ∃ f', f = .resume a f')
  waker : ∀ t f, (s.pc t).waker = some f → f.outer = true
  behalf : ∀ t a f, (s.pc t).frame = some (.resume a f) → (s.pc t).holding = true → s.live a = true
  written : ∀ t a n, (s.pc t).written = some (a,n) → s.next a = n

structure Linked (s : State Coro Ctx Cv Shared) (g : Lists Coro Cv) : Prop where
  chain : Chain s.next s.state.next g.chain
  inChain : ∀ a, a ∈ g.chain ↔ g.place a = .state
  inReady : ∀ a, a ∈ g.ready ↔ g.place a = .resumeList
  readyNodup : g.ready.Nodup
  resumeList : (∀ t, (s.pc t).reversing = false) → Chain s.next s.resumeListHead g.ready
  reverse : ∀ t awaiter toResume caller, s.pc t = .unlockReverse awaiter toResume caller →
    ∃ left turned, Chain s.next (some awaiter) left ∧ Chain s.next toResume turned ∧ g.ready = left.reverse ++ turned
  pop : ∀ t toResume caller, s.pc t = .unlockPop toResume caller → Chain s.next (some toResume) g.ready
  refilling : ∀ t, (s.pc t).refilling = true → s.resumeListHead = none
  waiting : ∀ k, Chain s.next (s.head k) (g.waiting k)
  inWaiting : ∀ k a, a ∈ g.waiting k ↔ g.place a = .cv k
  tail : ∀ k, s.tail k = (g.waiting k).getLast?
  snapshot : ∀ t, Chain s.next (s.pc t).detached (g.snapshot t)
  inSnapshot : ∀ t a, a ∈ g.snapshot t ↔ g.place a = .snapshot t

def Lists.after (g : Lists Coro Cv) (s : State Coro Ctx Cv Shared) : Action Coro Ctx Cv Shared → Lists Coro Cv
  | .step t =>
    match s.pc t with
    | .compareExchange self (.locked head) _ =>
      if s.state = .locked head then
        { g with chain := self::g.chain, place := Function.update g.place self .state }
      else g
    | .unlockHead _ =>
      match s.resumeListHead with
      | none => g
      | some toResume => { g with ready := g.ready.tail, place := Function.update g.place toResume (.hand t) }
    | .unlockExchange _ =>
      { g with
        chain := []
        ready := g.chain.reverse
        place := fun a => if g.place a = .state then .resumeList else g.place a }
    | .unlockPop toResume _ =>
      { g with ready := g.ready.tail, place := Function.update g.place toResume (.hand t) }
    | .submitTask self _ => { g with place := Function.update g.place self .submitted }
    | .cvLink self cv _ =>
      { g with
        waiting := Function.update g.waiting cv (g.waiting cv ++ [self])
        place := Function.update g.place self (.cv cv) }
    | .oneTake cv =>
      match s.head cv with
      | none => g
      | some cur =>
        { g with
          waiting := Function.update g.waiting cv (g.waiting cv).tail
          place := Function.update g.place cur (.hand t) }
    | .allTake cv =>
      { g with
        waiting := Function.update g.waiting cv []
        snapshot := Function.update g.snapshot t (g.waiting cv)
        place := fun a => if g.place a = .cv cv then .snapshot t else g.place a }
    | .allLoop _ (some curHead) =>
      { g with
        snapshot := Function.update g.snapshot t (g.snapshot t).tail
        place := Function.update g.place curHead (.hand t) }
    | .awaitResume self => { g with place := Function.update g.place self .gone }
    | _ => g
  | .lock t self _ | .wait t self _ _ _ => { g with place := Function.update g.place self (.hand t) }
  | .exec x =>
    match s.contexts.taskQueue x with
    | [] => g
    | front::_ =>
      match s.pc front with
      | .suspended self => { g with place := Function.update g.place self (.hand front) }
      | _ => g
  | _ => g

def Lists.initial : Lists Coro Cv := ⟨[],[],fun _ => [],fun _ => [],fun _ => .gone⟩

omit [DecidableEq Coro] [DecidableEq Ctx] [DecidableEq Cv] in
theorem fresh_placed (s : State Coro Ctx Cv Shared) (fresh : Fresh s) : Placed s (Lists.initial : Lists Coro Cv).place := by
  obtain ⟨_,_,live,_,_,_,pc,_,queue,_⟩ := fresh
  constructor <;>
    simp [Lists.initial,live,pc,queue,Pc.self,Pc.frame,Pc.hand,Pc.waker,Pc.registering,Pc.written]

omit [DecidableEq Coro] [DecidableEq Ctx] [DecidableEq Cv] in
theorem fresh_linked (s : State Coro Ctx Cv Shared) (fresh : Fresh s) : Linked s .initial := by
  obtain ⟨state,resumeListHead,_,_,head,tail,pc,_⟩ := fresh
  constructor <;>
    simp [Lists.initial,state,resumeListHead,head,tail,pc,Pc.frame,Pc.detached,Pc.refilling,AwaiterPtr.next]

section
variable {s s' : State Coro Ctx Cv Shared} {g : Lists Coro Cv} {place place' : Addr → Place Coro Cv} {t : Coro}

omit [DecidableEq Coro] [DecidableEq Ctx] [DecidableEq Cv] in
theorem Placed.live_of_hand (placed : Placed s place) {a : Addr} (hand : (s.pc t).hand = some a) : s.live a = true := by
  by_contra dead
  have gone := (placed.gone a).mpr (by simpa using dead)
  rw [(placed.hand t a).mp hand] at gone
  contradiction

omit [DecidableEq Coro] [DecidableEq Ctx] [DecidableEq Cv] in
theorem Placed.hand_unique (placed : Placed s place) {u : Coro} {a : Addr} (hand : (s.pc t).hand = some a)
    (other : (s.pc u).hand = some a) : u = t := by
  have mine := (placed.hand t a).mp hand
  rw [placed.hand,mine] at other
  exact (Place.hand.inj other).symm

omit [DecidableEq Ctx] [DecidableEq Cv] in
theorem pc_moved {p : Pc Cv} (pc : s'.pc = Function.update s.pc t p) (u : Coro) :
    u = t ∧ s'.pc u = p ∨ u ≠ t ∧ s'.pc u = s.pc u := by
  by_cases mine : u = t
  · subst mine
    exact .inl ⟨rfl,by rw [pc,Function.update_self]⟩
  · exact .inr ⟨mine,by rw [pc,Function.update_of_ne mine]⟩

omit [DecidableEq Ctx] [DecidableEq Cv] in
/-- A step of one thread in which no awaiter is constructed or destroyed. -/
theorem Placed.moves (placed : Placed s place) {p : Pc Cv} (pc : s'.pc = Function.update s.pc t p)
    (live : s'.live = s.live) (awaitCoro : s'.awaitCoro = s.awaitCoro) (kind : s'.kind = s.kind)
    (self : p.self = (s.pc t).self) (hand : ∀ a, p.hand = some a ↔ place' a = .hand t)
    (others : ∀ u, u ≠ t → ∀ a, place' a = .hand u ↔ place a = .hand u) (gone : ∀ a, place' a = .gone ↔ place a = .gone)
    (cvs : ∀ a k, place' a = .cv k → place a = .cv k ∨ ∃ c, s.kind a = .wait k c)
    (registering : ∀ a k f, p.registering = some (a,k,f) → (∃ c, s.kind a = .wait k c) ∧
      (f = .awaitSuspend a ∨ ∃ f', f = .resume a f'))
    (waker : ∀ f, p.waker = some f → f.outer = true)
    (behalf : ∀ a f, p.frame = some (.resume a f) → p.holding = true → s.live a = true)
    (written : ∀ a n, p.written = some (a,n) → s'.next a = n)
    (next : ∀ u a, u ≠ t → place a = .hand u → s'.next a = s.next a)
    (submitted : ∀ a, place' a = .submitted → s'.pc (s'.awaitCoro a) = .suspended a ∧
      ∃ x, s'.awaitCoro a ∈ s'.contexts.taskQueue x)
    (queued : ∀ u x, u ∈ s'.contexts.taskQueue x → ∃ a, place' a = .submitted ∧ s'.awaitCoro a = u ∧ s'.ctx a = x) :
    Placed s' place' := by
  have here : s'.pc t = p := by rw [pc,Function.update_self]
  have apart : ∀ u, u ≠ t → s'.pc u = s.pc u := fun u other => by rw [pc,Function.update_of_ne other]
  have selves : ∀ u, (s'.pc u).self = (s.pc u).self := by
    intro u
    by_cases mine : u = t
    · rw [mine,here,self]
    · rw [apart u mine]
  refine ⟨?_,?_,?_,?_,submitted,queued,?_,?_,?_,?_,?_⟩
  · simpa only [selves,live,awaitCoro] using placed.live
  · simpa only [selves,live,awaitCoro] using placed.self
  · intro a
    rw [gone,live]
    exact placed.gone a
  · intro u a
    by_cases mine : u = t
    · rw [mine,here]
      exact hand a
    · rw [apart u mine,others u mine]
      exact placed.hand u a
  · intro a k here
    rw [kind]
    rcases cvs a k here with old | new
    · exact placed.kind a k old
    · exact new
  · intro u a k f registers
    rw [kind]
    by_cases mine : u = t
    · rw [mine,here] at registers
      exact registering a k f registers
    · rw [apart u mine] at registers
      exact placed.registering u a k f registers
  · intro u f wakes
    by_cases mine : u = t
    · rw [mine,here] at wakes
      exact waker f wakes
    · rw [apart u mine] at wakes
      exact placed.waker u f wakes
  · intro u a f calls holds
    rw [live]
    by_cases mine : u = t
    · rw [mine,here] at calls holds
      exact behalf a f calls holds
    · rw [apart u mine] at calls holds
      exact placed.behalf u a f calls holds
  · intro u a n writes
    by_cases mine : u = t
    · rw [mine,here] at writes
      exact written a n writes
    · rw [apart u mine] at writes
      rw [next u a mine ((placed.hand u a).mp (hand_of_written writes))]
      exact placed.written u a n writes

omit [DecidableEq Ctx] [DecidableEq Cv] in
theorem Placed.goto (placed : Placed s place) {p : Pc Cv} (pc : s'.pc = Function.update s.pc t p)
    (live : s'.live = s.live) (awaitCoro : s'.awaitCoro = s.awaitCoro) (ctx : s'.ctx = s.ctx) (kind : s'.kind = s.kind)
    (queue : s'.contexts.taskQueue = s.contexts.taskQueue) (self : p.self = (s.pc t).self)
    (running : ∀ a, s.pc t ≠ .suspended a) (hand : ∀ a, p.hand = some a ↔ place' a = .hand t)
    (others : ∀ u, u ≠ t → ∀ a, place' a = .hand u ↔ place a = .hand u) (gone : ∀ a, place' a = .gone ↔ place a = .gone)
    (submitted : ∀ a, place' a = .submitted ↔ place a = .submitted)
    (cvs : ∀ a k, place' a = .cv k → place a = .cv k ∨ ∃ c, s.kind a = .wait k c)
    (registering : ∀ a k f, p.registering = some (a,k,f) → (∃ c, s.kind a = .wait k c) ∧
      (f = .awaitSuspend a ∨ ∃ f', f = .resume a f'))
    (waker : ∀ f, p.waker = some f → f.outer = true)
    (behalf : ∀ a f, p.frame = some (.resume a f) → p.holding = true → s.live a = true)
    (written : ∀ a n, p.written = some (a,n) → s'.next a = n)
    (next : ∀ u a, u ≠ t → place a = .hand u → s'.next a = s.next a) : Placed s' place' := by
  refine placed.moves pc live awaitCoro kind self hand others gone cvs registering waker behalf written next ?_ ?_
  · intro a here
    obtain ⟨waits,queued⟩ := placed.submitted a ((submitted a).mp here)
    have other : s.awaitCoro a ≠ t := fun same => running a (same ▸ waits)
    rw [awaitCoro,queue,pc,Function.update_of_ne other]
    exact ⟨waits,queued⟩
  · intro u x member
    rw [queue] at member
    obtain ⟨a,here,coro,owner⟩ := placed.queued u x member
    exact ⟨a,(submitted a).mpr here,by rw [awaitCoro]; exact coro,by rw [ctx]; exact owner⟩

section
variable {a : Addr} {q q' r : Place Coro Cv} {l rest : List Addr}

omit [DecidableEq Coro] [DecidableEq Cv] in
theorem place_elsewhere (former : place a ≠ r) (latter : q ≠ r) (b : Addr) : Function.update place a q b = r ↔ place b = r := by
  by_cases same : b = a
  · subst same
    rw [Function.update_self]
    exact iff_of_false latter former
  · rw [Function.update_of_ne same]

omit [DecidableEq Coro] [DecidableEq Cv] in
theorem member_elsewhere (inside : ∀ b, b ∈ l ↔ place b = r) (former : place a ≠ r) (latter : q ≠ r) (b : Addr) :
    b ∈ l ↔ Function.update place a q b = r :=
  (inside b).trans (place_elsewhere former latter b).symm

omit [DecidableEq Coro] [DecidableEq Cv] in
theorem member_added (inside : ∀ b, b ∈ l ↔ place b = r) (b : Addr) : b = a ∨ b ∈ l ↔ Function.update place a r b = r := by
  by_cases same : b = a
  · subst same
    simp
  · rw [Function.update_of_ne same,← inside b]
    exact or_iff_right same

omit [DecidableEq Coro] [DecidableEq Cv] in
theorem member_removed (inside : ∀ b, b ∈ a::rest ↔ place b = r) (absent : a ∉ rest) (latter : q ≠ r) (b : Addr) :
    b ∈ rest ↔ Function.update place a q b = r := by
  by_cases same : b = a
  · subst same
    rw [Function.update_self]
    exact iff_of_false absent latter
  · rw [Function.update_of_ne same,← inside b,List.mem_cons]
    exact (or_iff_right same).symm

theorem place_moved (former : q ≠ r) (latter : q' ≠ r) (b : Addr) : (if place b = q then q' else place b) = r ↔ place b = r := by
  split
  next here => exact iff_of_false latter (here ▸ former)
  next => rfl

theorem member_moved (inside : ∀ b, b ∈ l ↔ place b = r) (former : q ≠ r) (latter : q' ≠ r) (b : Addr) :
    b ∈ l ↔ (if place b = q then q' else place b) = r :=
  (inside b).trans (place_moved former latter b).symm

omit [DecidableEq Coro] [DecidableEq Ctx] [DecidableEq Cv] in
theorem Placed.hand_taken (placed : Placed s place) {p : Pc Cv} (bare : (s.pc t).hand = none) (hand : p.hand = some a)
    (b : Addr) : p.hand = some b ↔ Function.update place a (.hand t) b = .hand t := by
  by_cases same : b = a
  · subst same
    rw [Function.update_self]
    exact iff_of_true hand rfl
  · rw [Function.update_of_ne same,← placed.hand,hand,bare]
    exact iff_of_false (fun here => same (Option.some.inj here).symm) (by simp)

omit [DecidableEq Coro] [DecidableEq Ctx] [DecidableEq Cv] in
theorem Placed.hand_left (placed : Placed s place) {p : Pc Cv} (mine : (s.pc t).hand = some a) (hand : p.hand = none)
    (other : q ≠ .hand t) (b : Addr) : p.hand = some b ↔ Function.update place a q b = .hand t := by
  rw [hand]
  refine iff_of_false (by simp) fun here => ?_
  by_cases same : b = a
  · rw [same,Function.update_self] at here
    exact other here
  · rw [Function.update_of_ne same,← placed.hand,mine] at here
    exact same (Option.some.inj here).symm

omit [DecidableEq Ctx] [DecidableEq Cv] in
theorem Placed.takes (placed : Placed s place) {p : Pc Cv} (pc : s'.pc = Function.update s.pc t p) (live : s'.live = s.live)
    (awaitCoro : s'.awaitCoro = s.awaitCoro) (ctx : s'.ctx = s.ctx) (kind : s'.kind = s.kind)
    (queue : s'.contexts.taskQueue = s.contexts.taskQueue) (next : s'.next = s.next) (self : p.self = (s.pc t).self)
    (running : ∀ a, s.pc t ≠ .suspended a) (listed : (place a).listed = true) (bare : (s.pc t).hand = none)
    (hand : p.hand = some a) (registering : p.registering = none) (waker : ∀ f, p.waker = some f → f.outer = true)
    (behalf : ∀ a f, p.frame = some (.resume a f) → p.holding = true → s.live a = true) (written : p.written = none) :
    Placed s' (Function.update place a (.hand t)) := by
  have apart : ∀ q : Place Coro Cv, q.listed = false → place a ≠ q := by
    intro q unlisted same
    rw [same,unlisted] at listed
    contradiction
  refine placed.goto pc live awaitCoro ctx kind queue self running (placed.hand_taken bare hand) ?_ ?_ ?_ ?_ ?_ waker behalf ?_
    fun _ _ _ _ => by rw [next]
  · exact fun u other => place_elsewhere (apart _ rfl) fun same => other (Place.hand.inj same).symm
  · exact place_elsewhere (apart _ rfl) (by simp)
  · exact place_elsewhere (apart _ rfl) (by simp)
  · intro b k here
    by_cases same : b = a
    · rw [same,Function.update_self] at here
      contradiction
    · rw [Function.update_of_ne same] at here
      exact .inl here
  · simp [registering]
  · simp [written]

omit [DecidableEq Ctx] [DecidableEq Cv] in
theorem Placed.puts (placed : Placed s place) {p : Pc Cv} (pc : s'.pc = Function.update s.pc t p) (live : s'.live = s.live)
    (awaitCoro : s'.awaitCoro = s.awaitCoro) (ctx : s'.ctx = s.ctx) (kind : s'.kind = s.kind)
    (queue : s'.contexts.taskQueue = s.contexts.taskQueue) (self : p.self = (s.pc t).self)
    (running : ∀ a, s.pc t ≠ .suspended a) (mine : (s.pc t).hand = some a) (listed : q.listed = true)
    (waits : ∀ k, q = .cv k → ∃ c, s.kind a = .wait k c) (hand : p.hand = none)
    (registering : ∀ a k f, p.registering = some (a,k,f) → (∃ c, s.kind a = .wait k c) ∧
      (f = .awaitSuspend a ∨ ∃ f', f = .resume a f')) (waker : p.waker = none)
    (behalf : ∀ a f, p.frame = some (.resume a f) → p.holding = true → s.live a = true) (written : p.written = none)
    (next : ∀ u a, u ≠ t → place a = .hand u → s'.next a = s.next a) : Placed s' (Function.update place a q) := by
  have apart : ∀ q' : Place Coro Cv, q'.listed = false → q ≠ q' := by
    intro q' unlisted same
    rw [same,unlisted] at listed
    contradiction
  have former := (placed.hand t a).mp mine
  refine placed.goto pc live awaitCoro ctx kind queue self running (placed.hand_left mine hand (apart _ rfl)) ?_ ?_ ?_ ?_
    registering ?_ behalf ?_ next
  · refine fun u other => place_elsewhere ?_ (apart _ rfl)
    rw [former]
    exact fun same => other (Place.hand.inj same).symm
  · exact place_elsewhere (by simp [former]) (apart _ rfl)
  · exact place_elsewhere (by simp [former]) (apart _ rfl)
  · intro b k here
    by_cases same : b = a
    · subst same
      rw [Function.update_self] at here
      exact .inr (waits k here)
    · rw [Function.update_of_ne same] at here
      exact .inl here
  · simp [waker]
  · simp [written]

omit [DecidableEq Ctx] in
theorem Placed.relists (placed : Placed s place) {p : Pc Cv} (pc : s'.pc = Function.update s.pc t p)
    (live : s'.live = s.live) (awaitCoro : s'.awaitCoro = s.awaitCoro) (ctx : s'.ctx = s.ctx) (kind : s'.kind = s.kind)
    (queue : s'.contexts.taskQueue = s.contexts.taskQueue) (next : s'.next = s.next) (self : p.self = (s.pc t).self)
    (running : ∀ a, s.pc t ≠ .suspended a) (former : q.listed = true) (latter : q'.listed = true) (cv : ∀ k, q' ≠ .cv k)
    (hand : p.hand = (s.pc t).hand) (registering : p.registering = none) (waker : p.waker = none)
    (behalf : ∀ a f, p.frame = some (.resume a f) → p.holding = true → s.live a = true) (written : p.written = none) :
    Placed s' fun a => if place a = q then q' else place a := by
  have apart : ∀ x y : Place Coro Cv, x.listed = true → y.listed = false → x ≠ y := by
    intro x y listed unlisted same
    rw [same,unlisted] at listed
    contradiction
  have moved : ∀ r : Place Coro Cv, r.listed = false → ∀ b, (if place b = q then q' else place b) = r ↔ place b = r :=
    fun r unlisted => place_moved (apart q r former unlisted) (apart q' r latter unlisted)
  refine placed.goto pc live awaitCoro ctx kind queue self running ?_ (fun u _ => moved _ rfl) (moved _ rfl) (moved _ rfl) ?_
    (by simp [registering]) (by simp [waker]) behalf (by simp [written]) fun _ _ _ _ => by rw [next]
  · intro b
    rw [hand,moved _ rfl]
    exact placed.hand t b
  · intro b k here
    split at here
    next => exact absurd here (cv k)
    next => exact .inl here

end

omit [DecidableEq Coro] [DecidableEq Ctx] [DecidableEq Cv] in
theorem Linked.write (linked : Linked s g) {next : Addr → Option Addr}
    (same : ∀ a, (g.place a).listed = true → next a = s.next a) :
    (∀ p, Chain s.next p g.chain → Chain next p g.chain) ∧
      (∀ p l, (∀ a ∈ l, a ∈ g.ready) → Chain s.next p l → Chain next p l) ∧
      (∀ k p, Chain s.next p (g.waiting k) → Chain next p (g.waiting k)) ∧
      ∀ u p, Chain s.next p (g.snapshot u) → Chain next p (g.snapshot u) := by
  refine ⟨?_,?_,?_,?_⟩
  · refine fun p => (Chain.congr fun a member => ?_).mp
    exact (same a (by rw [(linked.inChain a).mp member]; rfl)).symm
  · refine fun p l inside => (Chain.congr fun a member => ?_).mp
    exact (same a (by rw [(linked.inReady a).mp (inside a member)]; rfl)).symm
  · refine fun k p => (Chain.congr fun a member => ?_).mp
    exact (same a (by rw [(linked.inWaiting k a).mp member]; rfl)).symm
  · refine fun u p => (Chain.congr fun a member => ?_).mp
    exact (same a (by rw [(linked.inSnapshot u a).mp member]; rfl)).symm

omit [DecidableEq Ctx] [DecidableEq Cv] in
theorem Linked.goto (linked : Linked s g) {p : Pc Cv} (pc : s'.pc = Function.update s.pc t p)
    (state : s'.state.next = s.state.next) (resumeListHead : s'.resumeListHead = s.resumeListHead)
    (head : s'.head = s.head) (tail : s'.tail = s.tail)
    (next : ∀ a, (g.place a).listed = true → s'.next a = s.next a)
    (places : ∀ a, place' a = g.place a ∨ (place' a).listed = false ∧ (g.place a).listed = false)
    (detached : p.detached = (s.pc t).detached) (reversing : p.reversing = false) (before : (s.pc t).reversing = false)
    (refilling : p.refilling = true → s.resumeListHead = none) : Linked s' { g with place := place' } := by
  have here : s'.pc t = p := by rw [pc,Function.update_self]
  have apart : ∀ u, u ≠ t → s'.pc u = s.pc u := fun u other => by rw [pc,Function.update_of_ne other]
  obtain ⟨inChain,inReady,inWaiting,inSnapshot⟩ := linked.write next
  have stays : ∀ {α : Type} (F : Pc Cv → α), F p = F (s.pc t) → ∀ u, F (s'.pc u) = F (s.pc u) := by
    intro α F same u
    by_cases mine : u = t
    · rw [mine,here,same]
    · rw [apart u mine]
  have detaches := stays Pc.detached detached
  have reverses := stays Pc.reversing (reversing.trans before.symm)
  have turning : ∀ u, (s.pc u).reversing = true → s'.pc u = s.pc u := by
    intro u turns
    exact apart u fun same => by rw [same,before] at turns; contradiction
  have listed : ∀ (a : Addr) (q : Place Coro Cv), q.listed = true → (place' a = q ↔ g.place a = q) := by
    intro a q inside
    rcases places a with same | ⟨after,former⟩
    · rw [same]
    · constructor
      · intro here; rw [here,inside] at after; contradiction
      · intro here; rw [here,inside] at former; contradiction
  refine ⟨?_,?_,?_,linked.readyNodup,?_,?_,?_,?_,?_,?_,?_,?_,?_⟩
  · rw [state]
    exact inChain _ linked.chain
  · intro a; rw [listed a _ rfl]; exact linked.inChain a
  · intro a; rw [listed a _ rfl]; exact linked.inReady a
  · simp only [reverses,resumeListHead]
    exact fun quiet => inReady _ _ (fun _ member => member) (linked.resumeList quiet)
  · intro u awaiter toResume caller turns
    have same := turning u (by rw [← reverses,turns]; rfl)
    obtain ⟨left,turned,first,second,order⟩ := linked.reverse u awaiter toResume caller (same ▸ turns)
    refine ⟨left,turned,inReady _ _ (fun a member => ?_) first,inReady _ _ (fun a member => ?_) second,order⟩
    · simp [order,member]
    · simp [order,member]
  · intro u toResume caller turns
    have same := turning u (by rw [← reverses,turns]; rfl)
    exact inReady _ _ (fun _ member => member) (linked.pop u toResume caller (same ▸ turns))
  · intro u fills
    rw [resumeListHead]
    by_cases mine : u = t
    · rw [mine,here] at fills
      exact refilling fills
    · rw [apart u mine] at fills
      exact linked.refilling u fills
  · intro k
    rw [head]
    exact inWaiting k _ (linked.waiting k)
  · intro k a; rw [listed a _ rfl]; exact linked.inWaiting k a
  · simpa only [tail] using linked.tail
  · intro u
    rw [detaches]
    exact inSnapshot u _ (linked.snapshot u)
  · intro u a; rw [listed a _ rfl]; exact linked.inSnapshot u a

omit [DecidableEq Ctx] [DecidableEq Cv] in
theorem Linked.relist (linked : Linked s g) {g' : Lists Coro Cv} {p : Pc Cv} (pc : s'.pc = Function.update s.pc t p)
    (resumeListHead : s'.resumeListHead = s.resumeListHead)
    (next : ∀ a, g.place a = .resumeList → s'.next a = s.next a) (ready : g'.ready = g.ready)
    (places : ∀ a, g'.place a = .resumeList ↔ g.place a = .resumeList) (reversing : p.reversing = false)
    (before : (s.pc t).reversing = false) (refilling : p.refilling = false)
    (chain : Chain s'.next s'.state.next g'.chain) (inChain : ∀ a, a ∈ g'.chain ↔ g'.place a = .state)
    (waiting : ∀ k, Chain s'.next (s'.head k) (g'.waiting k)) (inWaiting : ∀ k a, a ∈ g'.waiting k ↔ g'.place a = .cv k)
    (tail : ∀ k, s'.tail k = (g'.waiting k).getLast?) (snapshot : ∀ u, Chain s'.next (s'.pc u).detached (g'.snapshot u))
    (inSnapshot : ∀ u a, a ∈ g'.snapshot u ↔ g'.place a = .snapshot u) : Linked s' g' := by
  have keeps : ∀ p l, (∀ a ∈ l, a ∈ g.ready) → Chain s.next p l → Chain s'.next p l := by
    refine fun p l inside => (Chain.congr fun a member => ?_).mp
    exact (next a ((linked.inReady a).mp (inside a member))).symm
  -- only a thread that is at its old place has a list of its own
  have still : ∀ u, (s'.pc u).reversing = true ∨ (s'.pc u).refilling = true → s'.pc u = s.pc u := by
    intro u turns
    rw [pc] at turns ⊢
    refine Function.update_of_ne (fun same => ?_) ..
    rw [same,Function.update_self,reversing,refilling] at turns
    simp at turns
  refine ⟨chain,inChain,?_,ready ▸ linked.readyNodup,?_,?_,?_,?_,waiting,inWaiting,tail,snapshot,inSnapshot⟩
  · intro a
    rw [ready,places]
    exact linked.inReady a
  · intro quiet
    rw [resumeListHead,ready]
    refine keeps _ _ (fun _ member => member) (linked.resumeList fun u => ?_)
    by_cases mine : u = t
    · rw [mine,before]
    · rw [← quiet u,pc,Function.update_of_ne mine]
  · intro u awaiter toResume caller turns
    have same := still u (.inl (by rw [turns]; rfl))
    obtain ⟨left,turned,first,second,order⟩ := linked.reverse u awaiter toResume caller (same ▸ turns)
    refine ⟨left,turned,keeps _ _ (fun a member => ?_) first,keeps _ _ (fun a member => ?_) second,ready.trans order⟩
    · simp [order,member]
    · simp [order,member]
  · intro u toResume caller turns
    have same := still u (.inl (by rw [turns]; rfl))
    rw [ready]
    exact keeps _ _ (fun _ member => member) (linked.pop u toResume caller (same ▸ turns))
  · intro u fills
    rw [resumeListHead]
    exact linked.refilling u (still u (.inr fills) ▸ fills)

end
end TinyCoro.Mutex
