import TinyCoro.Context.Rest
import TinyCoro.Program.OnePlace

/-! The contexts of a program along its runs: what a step of the program does to each of them
is steps of its own, without io, and no pushed handle is forgotten by a worker that sleeps. -/
namespace TinyCoro.Program
open Library

section
variable {Coro : Type}

/-- The steps by which no operation is started or completed. -/
def isQuiet : Context.Action Coro → Bool
  | .io _ _ _ | .coAwait _ | .accept _ | .post _ _ _ _ => false
  | _ => true

/-- No operation is in a ring, so no assertion on one fails, and the worker finds what has been pushed. -/
structure Tended (c : Context.State Coro) : Prop where
  poised : Context.Poised c
  rings : c.sq = [] ∧ c.inKernel = [] ∧ c.cq = []
  asserted : ∀ i cnt, c.pc ≠ .aborted i cnt

variable [DecidableEq Coro] {c c' : Context.State Coro}

private theorem advance_rings (moved : Context.advance c = some c') (rings : c.sq = [] ∧ c.inKernel = [] ∧ c.cq = []) :
    c'.sq = [] ∧ c'.inKernel = [] ∧ c'.cq = [] := by
  obtain ⟨sq,inKernel,cq⟩ := rings
  unfold Context.advance at moved
  split at moved
  all_goals
    repeat' split at moved
    all_goals cases moved
    all_goals simp [sq,inKernel,cq,Context.State.writeEventfd,Context.State.handleCqe,Context.State.storeResult]

private theorem quiet_rings {a : Context.Action Coro} (quiet : isQuiet a = true) (moved : Context.step c a = some c')
    (rings : c.sq = [] ∧ c.inKernel = [] ∧ c.cq = []) : c'.sq = [] ∧ c'.inKernel = [] ∧ c'.cq = [] := by
  cases a with
  | step => exact advance_rings moved rings
  | io | coAwait | accept | post => contradiction
  | _ =>
    simp only [Context.step] at moved
    repeat' split at moved
    all_goals cases moved
    all_goals exact rings

private theorem quiet_asserted {a : Context.Action Coro} (quiet : isQuiet a = true) (moved : Context.step c a = some c') (cq : c.cq = [])
    (asserted : ∀ i cnt, c.pc ≠ .aborted i cnt) (i cnt : Nat) : c'.pc ≠ .aborted i cnt := by
  cases a with
  | step =>
    simp only [Context.step,Context.advance] at moved
    repeat' split at moved
    all_goals cases moved
    all_goals simp_all
  | io | coAwait | accept | post => contradiction
  | _ =>
    simp only [Context.step] at moved
    repeat' split at moved
    all_goals cases moved
    all_goals first | exact asserted i cnt | simp

theorem Tended.step {a : Context.Action Coro} (tended : Tended c) (quiet : isQuiet a = true) (moved : Context.step c a = some c') :
    Tended c' := by
  obtain ⟨poised,rings,asserted⟩ := tended
  have after := quiet_rings quiet moved rings
  refine ⟨?_,after,quiet_asserted quiet moved rings.2.2 asserted⟩
  cases a with
  | stopWake =>
    refine ⟨poised.counters.step moved,⟨?_,by simp [after.2.2]⟩,poised.held.step moved⟩
    simp only [Context.step,Option.ite_none_right_eq_some,Option.some.injEq] at moved
    obtain ⟨_,rfl⟩ := moved
    exact fun _ _ _ => .inl (Nat.succ_pos _)
  | io | coAwait | accept | post => contradiction
  | _ =>
    refine poised.step ?_ moved
    trivial

theorem Tended.pushes (tended : Tended c) (more : List Coro) :
    Tended { c with taskQueue := c.taskQueue ++ more, waking := c.waking + more.length } := by
  induction more generalizing c with
  | nil => simpa using tended
  | cons t more ih =>
    have first : Tended { c with taskQueue := c.taskQueue ++ [t], waking := c.waking + 1 } := tended.step (a := .push t) rfl rfl
    have rest := ih first
    have length : c.waking + (t::more).length = c.waking + 1 + more.length := by
      rw [List.length_cons]
      omega
    rw [List.append_cons,length]
    exact rest

theorem Tended.follow {Ctx : Type} (tended : Tended c) (before after : Contexts Ctx Coro) (x : Ctx) :
    Tended (follow c before after x) := by
  have waits : Tended { c with numWaitTask := c.numWaitTask + (after.numWaitTask x - before.numWaitTask x) } :=
    tended.step (a := .registerWait _) rfl rfl
  exact waits.pushes _

/-- Where a worker without io is blocked: beside the places where it may be at rest, while
it executes a coroutine, or at a full eventfd. -/
theorem Tended.blocked (tended : Tended c) (stuck : Context.advance c = none) :
    c.pc = .returned ∨ c.pc = .waitEventfd ∧ c.efd = 0 ∨ Context.isRunning c.pc = true ∨
      c.pc.owesWake = true ∧ ¬ c.canWrite Context.taskFlag := by
  obtain ⟨poised,⟨sq,inKernel,cq⟩,asserted⟩ := tended
  by_cases full : c.pc.owesWake = true ∧ ¬ c.canWrite Context.taskFlag
  · exact .inr (.inr (.inr full))
  have outside : c.pc ≠ .stopCb := by
    intro pc
    simp [Context.advance,pc] at stuck
  rcases Context.goes_of_worker poised.counters poised.held (by simpa using full) outside asserted with left | sleeps | ⟨a,settles,goes⟩
  · exact .inl left
  · exact .inr (.inl sleeps)
  · obtain ⟨c',moved⟩ := Option.isSome_iff_exists.mp goes
    cases a with
    | step => simp [Context.step,stuck] at moved
    | coAwait | suspend =>
      simp only [Context.step] at moved
      split at moved
      next pc => exact .inr (.inr (.inl (by rw [pc]; rfl)))
      next => contradiction
    | accept count =>
      simp only [Context.step] at moved
      split at moved
      next pc =>
        have few := poised.counters.queued (by simp [pc])
        rw [sq,List.length_nil] at few
        rw [if_neg fun submits => absurd few (Int.not_le.mpr submits.1)] at moved
        contradiction
      next => contradiction
    | post before after entry res => simp [Context.step,inKernel] at moved
    | _ => contradiction

/-- A worker that sleeps for good has an empty queue, and nobody is about to wake it. -/
theorem Tended.sleeps (tended : Tended c) (pc : c.pc = .waitEventfd) (silent : c.efd = 0) (waking : Context.step c .wake = none) :
    c.taskQueue = [] ∧ c.waking = 0 := by
  have none : c.waking = 0 := by
    by_contra pending
    have writable : c.canWrite Context.taskFlag := by
      rw [Context.State.canWrite,silent]
      decide
    simp [Context.step,writable,Nat.pos_of_ne_zero pending] at waking
  refine ⟨?_,none⟩
  have tasks := tended.poised.wakes.tasks 0 (by rw [pc]; rfl)
  by_contra more
  have pushed := tasks (List.length_pos_iff.mpr more)
  simp [silent,none,pc,Context.Pc.owesWake] at pushed

end

variable {Coro Ctx ι : Type} [DecidableEq Coro] [DecidableEq Ctx] [DecidableEq ι] {C : ι → Component Coro Ctx}
variable {s s' : State C} {x : Ctx}

/-- A step of a worker or of another thread on the context `x`: no component has a part in it, or
the worker goes on with a coroutine that one has put to sleep. -/
inductive Works (s s' : State C) (x : Ctx) (a : Context.Action Coro) : Prop
  | alone (acting : s'.acting = s.acting) (comps : s'.comps = s.comps) (inside : ∀ i t, s'.place t = .inside i ↔ s.place t = .inside i)
  | resumes (i : ι) (t : Coro) (d : (C i).State) (rest : List Coro) (kind : a = .step) (away : Context.isRunning (s.ctxs x).pc = false)
      (queue : (s.ctxs x).taskQueue = t::rest) (inside : s.place t = .inside i) (places : s'.place = s.place)
      (moved : (C i).machine.step (s.comps i) ((C i).exec x) = some d) (comps : s'.comps = Function.update s.comps i d)
      (acting : s'.acting = Function.update s.acting x (some t))

theorem Turn.tended {i : ι} {t : Coro} {d : (C i).State} {site : Option Ctx} (turn : Turn s x i t d site) {y : Ctx}
    (tended : Tended (s.ctxs y)) : Tended ((s.settle x i t d).ctxs y) := by
  have followed := tended.follow ((C i).contexts (s.comps i)) ((C i).contexts d) y
  simp only [State.settle]
  split
  next mine =>
    obtain ⟨rfl,_⟩ := mine
    have running := turn.running
    cases pc : (s.ctxs y).pc with
    | running left handle =>
      refine followed.step (a := .suspend) rfl ?_
      simp only [Context.step,follow_pc,pc,suspends]
    | _ => simp [pc,Context.isRunning] at running
  next => exact followed

/-- The contexts are tended, and a coroutine that is awake inside a component is executed. -/
structure Busy (s : State C) : Prop where
  tended : ∀ x, Tended (s.ctxs x)
  executed : ∀ t i, s.place t = .inside i → (C i).suspended (s.comps i) t = false → ∃ x, s.acting x = some t

theorem Busy.turn {i : ι} {t : Coro} {d : (C i).State} {site : Option Ctx} (busy : Busy s) (counted : Counted s)
    (turn : Turn s x i t d site) : Busy (s.settle x i t d) := by
  refine ⟨fun y => turn.tended (busy.tended y),fun u j inside awake => ?_⟩
  by_cases mine : u = t
  · subst mine
    have known := (turn.inside counted j u).mp inside
    have place : (s.settle x i u d).place u = if (C i).idle d u then .free else .inside i := Function.update_self ..
    rw [place] at inside
    split at inside
    next => contradiction
    next =>
      cases inside
      have comp : (s.settle x i u d).comps i = d := Function.update_self ..
      rw [comp] at known awake
      exact ⟨x,by simp [State.settle,known,awake]⟩
  · rw [settle_other s x i t d mine] at inside
    have before : (C j).suspended (s.comps j) u = false := by
      by_cases here : j = i
      · subst here
        have comp : (s.settle x j t d).comps j = d := Function.update_self ..
        rw [comp,turn.acts.suspended u mine] at awake
        exact awake
      · have comp : (s.settle x i t d).comps j = s.comps j := Function.update_of_ne here ..
        rwa [comp] at awake
    obtain ⟨y,acting⟩ := busy.executed u j inside before
    refine ⟨y,?_⟩
    have apart : y ≠ x := by
      rintro rfl
      rcases turn.turn with ⟨none,_⟩ | ⟨same,_⟩
      · simp [none] at acting
      · exact mine (Option.some.inj (acting.symm.trans same))
    simpa only [State.settle,Function.update_of_ne apart] using acting

theorem Busy.works {a : Context.Action Coro} {c : Context.State Coro} (busy : Busy s) (counted : Counted s) (lawful : ∀ i, (C i).Lawful)
    (quiet : isQuiet a = true) (stepped : Context.step (s.ctxs x) a = some c) (ctxs : s'.ctxs = (s.context x c).ctxs)
    (works : Works s s' x a) : Busy s' := by
  constructor
  · intro y
    rw [ctxs]
    simp only [State.context,Function.update_apply]
    split
    next => exact (busy.tended x).step quiet stepped
    next => exact busy.tended y
  · intro u j inside awake
    cases works with
    | alone acting comps same =>
      rw [comps] at awake
      rw [acting]
      exact busy.executed u j ((same j u).mp inside) awake
    | resumes i t d rest _ away queue place places moved comps acting =>
      rw [places] at inside
      rw [acting]
      by_cases mine : u = t
      · exact ⟨x,by rw [mine,Function.update_self]⟩
      obtain ⟨t',_,pops⟩ := (lawful i).pops _ _ _ (counted.parts i) moved
      have seen := counted.view i x
      rw [queue,List.filter_cons_of_pos (by simpa using place)] at seen
      obtain ⟨rfl,_⟩ := List.cons.inj (seen.symm.trans pops.front)
      have before : (C j).suspended (s.comps j) u = false := by
        rw [comps] at awake
        by_cases here : j = i
        · subst here
          rwa [Function.update_self,pops.suspended u mine] at awake
        · rwa [Function.update_of_ne here] at awake
      obtain ⟨y,executed⟩ := busy.executed u j inside before
      refine ⟨y,?_⟩
      have apart : y ≠ x := by
        rintro rfl
        have running := (counted.acting y u executed).1
        simp [away] at running
      rw [Function.update_of_ne apart]
      exact executed

end TinyCoro.Program
