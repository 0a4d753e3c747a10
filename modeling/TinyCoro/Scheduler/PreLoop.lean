import TinyCoro.Library.RoundRobin
import TinyCoro.Context.Worker

/-! Submission before the loop: `init_impl`, the round-robin dispatcher and
`submit_task_impl` while no worker runs. Nothing takes a task or reads an eventfd,
so every place of every queue must be enough. -/
namespace TinyCoro.Scheduler.PreLoop
open Library

/-- `dispatcher<round_robin>`; `size_t` and its atomic wrap around. -/
structure Dispatcher where
  ctxCnt : Nat
  cur : Nat
  deriving DecidableEq

/-- The context chosen, and the dispatcher after the `fetch_add`. -/
def Dispatcher.dispatch (d : Dispatcher) : Nat × Dispatcher := (d.cur % d.ctxCnt,{ d with cur := (d.cur + 1) % 2^64 })

/-- The contexts that so many consecutive calls choose. -/
def Dispatcher.dispatches (d : Dispatcher) : Nat → List Nat
  | 0 => []
  | calls+1 => d.dispatch.1 :: d.dispatch.2.dispatches calls

structure Ctx (Coro : Type) where
  taskQueue : List Coro
  efd : Nat

structure State (Coro : Type) where
  ctxs : Nat → Ctx Coro
  dispatcher : Dispatcher
  stopToken : Int
  ctxStopFlag : Nat → Nat

/-- `for (int i = 0; i < m_ctx_cnt; i++)`: how many contexts are constructed,
unless the `int` overflows. -/
def constructContexts (ctxCnt i : Nat) : Option Nat :=
  if i < ctxCnt then
    if i + 1 < 2^31 then constructContexts ctxCnt (i + 1) else none
  else some i
termination_by ctxCnt - i

section
variable {Coro : Type}

/-- `m_stop_token` is an `atomic<int>`. -/
def initImpl (ctxCnt : Nat) : Option (State Coro) :=
  (constructContexts ctxCnt 0).map fun _ =>
    { ctxs := fun _ => ⟨[],0⟩
      dispatcher := ⟨ctxCnt,0⟩
      stopToken := (ctxCnt : Int).bmod (2^32)
      ctxStopFlag := fun _ => 1 }

/-- `none` is a failed assertion, or a call that blocks: `push` on a full queue,
`write_eventfd` while the sum would pass the largest counter value. -/
def submitTaskImpl (s : State Coro) (handle : Coro) : Option (State Coro) :=
  if s.stopToken = 0 then none
  else
    let ctxId := s.dispatcher.dispatch.1
    let ctx := s.ctxs ctxId
    let old := s.ctxStopFlag ctxId
    if ctx.taskQueue.length < Context.kQueCap ∧ ctx.efd + Context.taskFlag ≤ 2^64 - 2 then
      some
        { ctxs := Function.update s.ctxs ctxId ⟨ctx.taskQueue ++ [handle],ctx.efd + Context.taskFlag⟩
          dispatcher := s.dispatcher.dispatch.2
          stopToken := (s.stopToken + (1 - old)).bmod (2^32)
          ctxStopFlag := Function.update s.ctxStopFlag ctxId (old ||| 1) }
    else none

/-- `init(n)` and then one `submit_task_impl` for each handle. -/
def submitted (n : Nat) (handles : List Coro) : Option (State Coro) :=
  (initImpl n).bind fun s => handles.foldlM submitTaskImpl s

structure Balanced (n : Nat) (handles : List Coro) (s : State Coro) : Prop where
  holds : ∀ i < n, (s.ctxs i).taskQueue = RoundRobin.dealt n i handles
  even : ∀ i < n, ∀ k < n, (s.ctxs i).taskQueue.length ≤ (s.ctxs k).taskQueue.length + 1
  flags : ∀ i < n, s.ctxStopFlag i = 1
  token : s.stopToken = n

structure Dealt (n : Nat) (handles : List Coro) (s : State Coro) : Prop where
  ctxs : ∀ i < n, s.ctxs i = ⟨RoundRobin.dealt n i handles,Context.taskFlag * (RoundRobin.dealt n i handles).length⟩
  dispatcher : s.dispatcher = ⟨n,handles.length⟩
  flags : ∀ i < n, s.ctxStopFlag i = 1
  token : s.stopToken = n

variable {n : Nat} {handles : List Coro} {s : State Coro}

private theorem constructContexts_eq (i : Nat) (reached : i ≤ n) (fits : i < 2^31) :
    constructContexts n i = if n < 2^31 then some n else none := by
  induction left : n - i generalizing i with
  | zero =>
    unfold constructContexts
    obtain rfl : i = n := by omega
    rw [if_neg (Nat.lt_irrefl i),if_pos fits]
  | succ left ih =>
    unfold constructContexts
    rw [if_pos (by omega)]
    split
    next fits => exact ih (i + 1) (by omega) fits (by omega)
    next => rw [if_neg (by omega)]

variable (Coro) in
private theorem init_dealt (small : n < 2^31) : ∃ s : State Coro, initImpl n = some s ∧ Dealt n [] s := by
  have constructed : constructContexts n 0 = some n := by
    rw [constructContexts_eq 0 (Nat.zero_le n) (by omega),if_pos small]
  have token : (n : Int).bmod (2^32) = n := Int.bmod_eq_of_le (by omega) (by omega)
  simp only [initImpl,constructed,Option.map_some,Option.some.injEq,exists_eq_left',token]
  exact ⟨fun _ _ => rfl,rfl,fun _ _ => rfl,rfl⟩

/-- Below the total capacity the context whose turn it is has a free place. -/
theorem Dealt.submit (h : Dealt n handles s) (positive : 0 < n) (small : n < 2^31)
    (more : handles.length < n * Context.kQueCap) (handle : Coro) :
    ∃ s', submitTaskImpl s handle = some s' ∧ Dealt n (handles ++ [handle]) s' := by
  have turn := Nat.mod_lt handles.length positive
  have dispatch : s.dispatcher.dispatch = (handles.length % n,⟨n,handles.length + 1⟩) := by
    have fits : (handles.length + 1) % 2^64 = handles.length + 1 := Nat.mod_eq_of_lt (by unfold Context.kQueCap at more; omega)
    rw [h.dispatcher,Dispatcher.dispatch,fits]
  have ctx := h.ctxs _ turn
  have length : (RoundRobin.dealt n (handles.length % n) handles).length = handles.length / n := by
    rw [RoundRobin.length_dealt,RoundRobin.share_next positive]
  have room : handles.length / n < Context.kQueCap := (Nat.div_lt_iff_lt_mul positive).mpr (Nat.mul_comm .. ▸ more)
  have token : (s.stopToken + (1 - (1 : Nat))).bmod (2^32) = n := by
    rw [h.token]
    simp only [Int.natCast_one,Int.sub_self,Int.add_zero]
    exact Int.bmod_eq_of_le (by omega) (by omega)
  have nonzero : s.stopToken ≠ 0 := by
    rw [h.token]
    omega
  have free : (s.ctxs (handles.length % n)).taskQueue.length < Context.kQueCap ∧
      (s.ctxs (handles.length % n)).efd + Context.taskFlag ≤ 2^64 - 2 := by
    rw [ctx]
    dsimp only
    rw [length]
    refine ⟨room,?_⟩
    unfold Context.kQueCap at room
    unfold Context.taskFlag
    omega
  simp only [submitTaskImpl,if_neg nonzero,dispatch,h.flags _ turn,if_pos free,token,Option.some.injEq,exists_eq_left']
  constructor
  case ctxs =>
    intro i below
    rw [RoundRobin.dealt_concat]
    by_cases same : i = handles.length % n
    · subst same
      simp only [Function.update_self,ctx,if_true,List.length_append,List.length_singleton,Nat.mul_add,Nat.mul_one]
    · dsimp only
      rw [Function.update_of_ne same,if_neg (Ne.symm same),List.append_nil]
      exact h.ctxs i below
  case dispatcher => simp
  case flags =>
    intro i below
    by_cases same : i = handles.length % n
    · subst same
      exact Function.update_self ..
    · exact (Function.update_of_ne same ..).trans (h.flags i below)
  case token => rfl

/-- All submissions up to the total capacity go through. -/
theorem submitted_dealt (positive : 0 < n) (small : n < 2^31) (handles : List Coro)
    (capacity : handles.length ≤ n * Context.kQueCap) : ∃ s, submitted n handles = some s ∧ Dealt n handles s := by
  induction handles using List.reverseRecOn with
  | nil =>
    obtain ⟨s,init,dealt⟩ := init_dealt Coro small
    exact ⟨s,by rw [submitted,init]; rfl,dealt⟩
  | append_singleton handles handle ih =>
    rw [List.length_append,List.length_singleton] at capacity
    obtain ⟨s,before,dealt⟩ := ih (by omega)
    obtain ⟨s',submit,dealt'⟩ := dealt.submit positive small (by omega) handle
    obtain ⟨start,init,ran⟩ := Option.bind_eq_some_iff.mp before
    refine ⟨s',?_,dealt'⟩
    rw [submitted,init,Option.bind_some,List.foldlM_append,ran]
    simp [submit]

theorem Dealt.balanced (h : Dealt n handles s) : Balanced n handles s := by
  refine ⟨fun i below => congrArg Ctx.taskQueue (h.ctxs i below),?_,h.flags,h.token⟩
  intro i below k below'
  rw [h.ctxs i below,h.ctxs k below',RoundRobin.length_dealt,RoundRobin.length_dealt]
  exact RoundRobin.share_even below below' 0 handles.length

end

theorem dispatches_eq (d : Dispatcher) (calls : Nat) (fits : d.cur + calls ≤ 2^64) :
    d.dispatches calls = (List.range' d.cur calls).map (· % d.ctxCnt) := by
  induction calls generalizing d with
  | zero => rfl
  | succ calls ih =>
    rw [Dispatcher.dispatches,List.range'_succ,List.map_cons]
    cases calls with
    | zero => rfl
    | succ calls =>
      have next : (d.cur + 1) % 2^64 = d.cur + 1 := Nat.mod_eq_of_lt (by omega)
      rw [ih d.dispatch.2 (by simp only [Dispatcher.dispatch,next]; omega)]
      simp only [Dispatcher.dispatch,next]

/-- Submission before the loop is balanced and never blocks below the total
capacity, and any window of the dispatcher's calls is fair. -/
theorem balanced_before_loop (n : Nat) (positive : 0 < n) :
    (n < 2^31 → ∀ (Coro : Type) (handles : List Coro), handles.length ≤ n * Context.kQueCap →
      ∃ s, submitted n handles = some s ∧ Balanced n handles s) ∧
    ∀ (d : Dispatcher) (calls : Nat), d.ctxCnt = n → d.cur + calls ≤ 2^64 → ∀ i < n,
      (d.dispatches calls).count i = calls / n ∨ (d.dispatches calls).count i = (calls + n - 1) / n := by
  constructor
  · intro small Coro handles capacity
    obtain ⟨s,ran,dealt⟩ := submitted_dealt positive small handles capacity
    exact ⟨s,ran,dealt.balanced⟩
  · rintro d calls rfl fits i below
    have count : (d.dispatches calls).count i = RoundRobin.share d.ctxCnt i d.cur calls := by
      rw [dispatches_eq d calls fits,List.count,List.countP_map,RoundRobin.share]
      rfl
    rw [count]
    exact RoundRobin.share_fair below d.cur calls

/-- Two contexts and three handles. -/
theorem three_on_two : ∃ s : State Nat, submitted 2 [10,11,12] = some s ∧ Balanced 2 [10,11,12] s :=
  (balanced_before_loop 2 (by decide)).1 (by decide) Nat [10,11,12] (by decide)

/-- With `2^31` contexts the loop that constructs them overflows its `int`. -/
theorem too_many_contexts : ¬ ∀ n : Nat, 0 < n → ∀ handles : List Unit, handles.length ≤ n * Context.kQueCap →
    ∃ s, submitted n handles = some s ∧ Balanced n handles s := by
  intro claimed
  obtain ⟨s,ran,_⟩ := claimed (2^31) (by decide) [] (Nat.zero_le _)
  have overflow : constructContexts (2^31) 0 = none := by
    rw [constructContexts_eq 0 (Nat.zero_le _) (by decide),if_neg (Nat.lt_irrefl _)]
  rw [submitted,initImpl,overflow] at ran
  contradiction

end TinyCoro.Scheduler.PreLoop
