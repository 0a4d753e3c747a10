import TinyCoro.Comp.WaitGroupDrain

/-! The wait group as a barrier. Beside its state a use records what has been
added and how many times `done` was called; while the amounts are not negative
and their total fits the counter, the counter is what is still to be done. -/
namespace TinyCoro.WaitGroup
open Library TwoParties

/-- A wait group in use. `added` is the constructor's count and the amounts of
all `add` calls, `dones` counts the `fetch_sub`s of `done`, `drains` those that
went on to take the list, and `reached` tells that the count has come to zero. -/
structure Use (Coro Ctx : Type) where
  wg : State Coro Ctx
  added : Int
  dones : Nat
  drains : Nat
  reached : Bool

def Action.amount {Coro Ctx : Type} : Action Coro Ctx → Int
  | .add _ count => count
  | _ => 0

def Action.isDone {Coro Ctx : Type} : Action Coro Ctx → Bool
  | .done _ => true
  | _ => false

variable {Coro Ctx : Type} [DecidableEq Coro] [DecidableEq Ctx]

namespace Use

def step (u : Use Coro Ctx) (a : Action Coro Ctx) : Option (Use Coro Ctx) :=
  (WaitGroup.step u.wg a).map fun wg =>
    { wg := wg
      added := u.added + a.amount
      dones := u.dones + a.isDone.toNat
      drains := u.drains + (a.isDone && u.wg.count == 1).toNat
      reached := u.reached || (u.wg.count != 0 && wg.count == 0) }

def Fresh (u : Use Coro Ctx) : Prop :=
  WaitGroup.Fresh u.wg ∧ u.added = u.wg.count ∧ u.dones = 0 ∧ u.drains = 0 ∧ u.reached = false

def machine (Coro Ctx : Type) [DecidableEq Coro] [DecidableEq Ctx] : Machine (Use Coro Ctx) (Action Coro Ctx) := ⟨Fresh,step⟩

/-- Every `add` comes before the count first reaches zero, and `done` is called
at most as often as the total added. -/
def Called (u : Use Coro Ctx) : Action Coro Ctx → Prop
  | .add _ _ => u.reached = false
  | .done _ => u.dones < u.added
  | _ => True

def NonNegativeAmounts (_ : Use Coro Ctx) (a : Action Coro Ctx) : Prop := 0 ≤ a.amount

def FitsCounter (u : Use Coro Ctx) (a : Action Coro Ctx) : Prop := u.added + a.amount < 2^32

end Use

/-- Between two states a `wait` completes: its `await_suspend` returns false or
its handle is submitted. -/
def Completes (s s' : State Coro Ctx) : Prop :=
  ∃ t, (∃ a, s.pc t = .loadCount a ∧ s'.pc t = .awaitResume a) ∨ s.submissions t < s'.submissions t

namespace Use

structure IsBarrier (u : Use Coro Ctx) : Prop where
  /-- A `wait` completes when the count is zero and every matching `done` has subtracted. -/
  holdsBack : ∀ a u', u.step a = some u' → Completes u.wg u'.wg → u.wg.count = 0 ∧ (u.dones : Int) = u.added
  drainsOnce : u.drains = u.reached.toNat
  submitsOnce : ∀ t, u.wg.submissions t ≤ u.wg.suspensions t

structure Counts (u : Use Coro Ctx) : Prop where
  bound : u.added < 2^32
  matched : (u.dones : Int) ≤ u.added
  count : u.wg.count = int32 (u.added - u.dones)
  closed : u.reached = true → (u.dones : Int) = u.added
  untouched : u.reached = false → u.dones = 0 ∨ (u.dones : Int) < u.added
  drains : u.drains = u.reached.toNat
  draining : ∀ t, (u.wg.pc t).draining = true → u.reached = true

end Use

private theorem int32_add (n k : Int) : int32 (int32 n + k) = int32 (n + k) := Int.bmod_add_bmod ..

private theorem int32_small {n k : Int} (low : 0 ≤ n) (high : n < 2^32) (small : 0 ≤ k) (small' : k ≤ 1) :
    int32 n = k ↔ n = k := by
  unfold int32
  constructor
  · intro wrapped
    have := Int.emod_bmod n (2^32)
    rw [Int.bmod_def] at wrapped
    split at wrapped <;> omega
  · rintro rfl
    exact Int.bmod_eq_of_le (by omega) (by omega)

section
variable {s s' : State Coro Ctx} {t : Coro}

omit [DecidableEq Ctx] in
private theorem goto_draining {q : Pc} (before : q.draining = true → (s.pc t).draining = true) (u : Coro)
    (drains : ((s.goto t q).pc u).draining = true) : (s.pc u).draining = true := by
  by_cases same : u = t
  · subst same
    rw [show (s.goto u q).pc u = q from Function.update_self ..] at drains
    exact before drains
  · rwa [show (s.goto t q).pc u = s.pc u from Function.update_of_ne same ..] at drains

/-- Only `add` and `done` change the count, and only `done` begins to drain. -/
theorem advance_quiet (moved : advance s t = some s') :
    s'.count = s.count ∧ ∀ u, (s'.pc u).draining = true → (s.pc u).draining = true := by
  cases pc : s.pc t with
  | idle | suspended a => simp [advance,pc] at moved
  | loadCount a =>
    simp only [advance,pc] at moved
    split at moved <;> cases moved <;> exact ⟨rfl,goto_draining (by simp [Pc.draining])⟩
  | compareExchange a head =>
    simp only [advance,pc] at moved
    split at moved <;> cases moved <;> exact ⟨rfl,goto_draining (by simp [Pc.draining])⟩
  | drain head =>
    cases head with
    | none =>
      simp only [advance,pc,Option.some.injEq] at moved
      subst moved
      exact ⟨rfl,goto_draining (by simp [Pc.draining])⟩
    | some head =>
      simp only [advance,pc,Option.some.injEq] at moved
      subst moved
      exact ⟨rfl,goto_draining (by simp [pc,Pc.draining])⟩
  | registerWait a | loadState a | awaitResume a | exchange | resume a n =>
    simp only [advance,pc,Option.some.injEq] at moved
    subst moved
    exact ⟨rfl,goto_draining (by simp [pc,Pc.draining])⟩

omit [DecidableEq Ctx] in
private theorem goto_loading {q : Pc} (other : (∀ a, s.pc t ≠ .loadCount a) ∨ ∀ a, q ≠ .awaitResume a) (u : Coro) (a : Addr)
    (here : s.pc u = .loadCount a) : (s.goto t q).pc u ≠ .awaitResume a := by
  intro there
  by_cases same : u = t
  · subst same
    rw [show (s.goto u q).pc u = q from Function.update_self ..] at there
    exact other.elim (fun other => other a here) fun other => other a there
  · rw [show (s.goto t q).pc u = s.pc u from Function.update_of_ne same ..,here] at there
    contradiction

private theorem advance_completes (moved : advance s t = some s') (completes : Completes s s') :
    s.count = 0 ∨ (s.pc t).draining = true := by
  obtain ⟨u,finished⟩ := completes
  have stayed : (∀ a, s.pc u = .loadCount a → s'.pc u ≠ .awaitResume a) → s'.submissions = s.submissions → False := by
    intro loading same
    rcases finished with ⟨a,here,there⟩ | submitted
    · exact loading a here there
    · exact Nat.lt_irrefl _ (same ▸ submitted)
  cases pc : s.pc t with
  | idle | suspended a => simp [advance,pc] at moved
  | exchange | drain head | resume a n => exact .inr rfl
  | loadCount a =>
    simp only [advance,pc] at moved
    split at moved
    next zero => exact .inl zero
    next =>
      obtain rfl := Option.some.inj moved
      exact (stayed (goto_loading (.inr (by simp)) u) rfl).elim
  | compareExchange a head =>
    simp only [advance,pc] at moved
    split at moved <;> cases moved <;> exact (stayed (goto_loading (.inl (by simp [pc])) u) rfl).elim
  | registerWait a | loadState a | awaitResume a =>
    simp only [advance,pc,Option.some.injEq] at moved
    subst moved
    exact (stayed (goto_loading (.inl (by simp [pc])) u) rfl).elim

/-- A `wait` completes where the count was just seen to be zero, or inside a draining `done`. -/
theorem completes_from {a : Action Coro Ctx} (moved : step s a = some s') (completes : Completes s s') :
    s.count = 0 ∨ ∃ t, (s.pc t).draining = true := by
  have stayed : ∀ u q, (∀ a, s.pc u ≠ .loadCount a) → s'.pc = Function.update s.pc u q →
      s'.submissions = s.submissions → False := by
    intro u q elsewhere pc same
    obtain ⟨v,⟨a,here,there⟩ | submitted⟩ := completes
    · exact goto_loading (q := q) (.inl elsewhere) v a here ((congrFun pc v).symm.trans there)
    · exact Nat.lt_irrefl _ (same ▸ submitted)
  cases a with
  | step t => exact (advance_completes moved completes).imp_right fun draining => ⟨t,draining⟩
  | wait t self x =>
    simp only [step] at moved
    split at moved
    next free => cases moved; exact (stayed t _ (by simp [free.1]) rfl rfl).elim
    next => contradiction
  | add t n =>
    simp only [step] at moved
    split at moved
    next idle => cases moved; exact (stayed t .idle (by simp [idle]) (by simp [← idle]) rfl).elim
    next => contradiction
  | done t =>
    simp only [step] at moved
    split at moved
    next idle => cases moved; exact (stayed t _ (by simp [idle]) rfl rfl).elim
    next => contradiction
  | spurious t =>
    simp only [step] at moved
    split at moved
    next here => cases moved; exact (stayed t _ (by simp [here]) rfl rfl).elim
    next => contradiction
  | exec x =>
    simp only [step] at moved
    split at moved
    next => contradiction
    next handle rest front =>
      split at moved
      next here => cases moved; exact (stayed handle _ (by simp [here]) rfl rfl).elim
      next => contradiction

private theorem step_quiet {a : Action Coro Ctx} (moved : step s a = some s') (noAdd : ∀ t n, a ≠ .add t n) (noDone : ∀ t, a ≠ .done t) :
    s'.count = s.count ∧ ∀ u, (s'.pc u).draining = true → (s.pc u).draining = true := by
  cases a with
  | step t => exact advance_quiet moved
  | add t n => exact absurd rfl (noAdd t n)
  | done t => exact absurd rfl (noDone t)
  | wait t self x =>
    simp only [step] at moved
    split at moved
    next => cases moved; exact ⟨rfl,goto_draining (by simp [Pc.draining])⟩
    next => contradiction
  | spurious t =>
    simp only [step] at moved
    split at moved
    next => cases moved; exact ⟨rfl,goto_draining (by simp [Pc.draining])⟩
    next => contradiction
  | exec x =>
    simp only [step] at moved
    split at moved
    next => contradiction
    next =>
      split at moved
      next => cases moved; exact ⟨rfl,goto_draining (by simp [Pc.draining])⟩
      next => contradiction

end

namespace Use
variable {u u' : Use Coro Ctx} {a : Action Coro Ctx}

/-- The uses of the claim with amounts that the counter can hold. -/
def Proper (u : Use Coro Ctx) (a : Action Coro Ctx) : Prop := u.Called a ∧ u.NonNegativeAmounts a ∧ u.FitsCounter a

omit [DecidableEq Coro] [DecidableEq Ctx] in
private theorem Counts.zero_iff (h : Counts u) : u.wg.count = 0 ↔ (u.dones : Int) = u.added := by
  rw [h.count,int32_small (by have := h.matched; omega) (by have := h.bound; omega) (by simp) (by simp)]
  omega

omit [DecidableEq Coro] [DecidableEq Ctx] in
private theorem Counts.one_iff (h : Counts u) : u.wg.count = 1 ↔ (u.dones : Int) + 1 = u.added := by
  rw [h.count,int32_small (by have := h.matched; omega) (by have := h.bound; omega) (by simp) (by simp)]
  omega

omit [DecidableEq Coro] [DecidableEq Ctx] in
private theorem fresh_counts (u : Use Coro Ctx) (fresh : Fresh u) : Counts u := by
  obtain ⟨⟨low,high,_,_,idle,_⟩,added,dones,drains,reached⟩ := fresh
  constructor
  case count =>
    rw [added,dones,Int.natCast_zero,Int.sub_zero]
    exact (Int.bmod_eq_of_le (by omega) (by omega)).symm
  case draining => simp [idle,Pc.draining]
  all_goals first | omega | simp [reached,dones,drains]

theorem Counts.add (h : Counts u) {t : Coro} {n : Int} (proper : u.Proper (.add t n))
    (moved : u.step (.add t n) = some u') : Counts u' := by
  obtain ⟨unreached,nonneg,fits⟩ := proper
  simp only [Called,NonNegativeAmounts,FitsCounter,Action.amount] at unreached nonneg fits
  obtain ⟨wg,stepped,rfl⟩ := Option.map_eq_some_iff.mp moved
  simp only [WaitGroup.step] at stepped
  split at stepped
  next idle =>
    obtain rfl := Option.some.inj stepped
    have matched := h.matched
    have later : int32 (u.wg.count + n) = int32 (u.added + n - u.dones) := by
      rw [h.count,int32_add]
      congr 1
      omega
    have reached : (u.reached || (u.wg.count != 0 && int32 (u.wg.count + n) == 0)) = false := by
      rw [unreached,Bool.false_or,Bool.and_eq_false_imp]
      intro nonzero
      have open' := mt h.zero_iff.mpr (bne_iff_ne.mp nonzero)
      rw [beq_eq_false_iff_ne,later,Ne,int32_small (by omega) (by omega) (by simp) (by simp)]
      omega
    simp only [Action.amount,Action.isDone,Bool.toNat_false,Nat.add_zero,Bool.false_and,reached]
    constructor
    case bound => exact fits
    case matched => exact Int.le_trans matched (Int.le_add_of_nonneg_right nonneg)
    case count => exact later
    case closed => simp
    case untouched => exact fun _ => (h.untouched unreached).imp_right fun below =>
      Int.lt_of_lt_of_le below (Int.le_add_of_nonneg_right nonneg)
    case drains => exact h.drains.trans (congrArg _ unreached)
    case draining => exact fun v drains => absurd (h.draining v drains) (by simp [unreached])
  next => contradiction

theorem Counts.done (h : Counts u) {t : Coro} (proper : u.Called (.done t))
    (moved : u.step (.done t) = some u') : Counts u' := by
  simp only [Called] at proper
  obtain ⟨wg,stepped,rfl⟩ := Option.map_eq_some_iff.mp moved
  simp only [WaitGroup.step] at stepped
  split at stepped
  next idle =>
    obtain rfl := Option.some.inj stepped
    have unreached : u.reached = false := by
      by_contra reached
      have := h.closed (by simpa using reached)
      omega
    have undrained : u.drains = 0 := h.drains.trans (congrArg _ unreached)
    have bound := h.bound
    have later : int32 (u.wg.count - 1) = int32 (u.added - (u.dones + 1 : Nat)) := by
      rw [h.count,Int.sub_eq_add_neg,int32_add]
      congr 1
      omega
    have last : int32 (u.wg.count - 1) = 0 ↔ u.wg.count = 1 := by
      rw [later,int32_small (by omega) (by omega) (by simp) (by simp),h.one_iff]
      omega
    have nonzero : u.wg.count ≠ 0 := fun zero => by
      have := h.zero_iff.mp zero
      omega
    have reached : (u.reached || (u.wg.count != 0 && int32 (u.wg.count - 1) == 0)) = (u.wg.count == 1) := by
      rw [unreached,Bool.false_or,bne_iff_ne.mpr nonzero,Bool.true_and,Bool.eq_iff_iff,beq_iff_eq,beq_iff_eq,last]
    simp only [Action.amount,Action.isDone,Bool.toNat_true,Int.add_zero,Bool.true_and,reached]
    constructor
    all_goals dsimp only
    case bound => exact bound
    case matched => omega
    case count => exact later
    case closed =>
      intro one
      have := h.one_iff.mp (beq_iff_eq.mp one)
      omega
    case untouched =>
      intro many
      have := mt h.one_iff.mpr (beq_eq_false_iff_ne.mp many)
      omega
    case drains => rw [undrained,Nat.zero_add]
    case draining =>
      intro v drains
      by_cases same : v = t
      · subst same
        by_contra many
        simp [State.goto,beq_iff_eq.not.mp many,Pc.draining] at drains
      · simp only [State.goto,Function.update_of_ne same] at drains
        exact absurd (h.draining v drains) (by simp [unreached])
  next => contradiction

theorem Counts.quiet (h : Counts u) (noAdd : ∀ t n, a ≠ .add t n) (noDone : ∀ t, a ≠ .done t)
    (moved : u.step a = some u') : Counts u' := by
  obtain ⟨wg,stepped,rfl⟩ := Option.map_eq_some_iff.mp moved
  obtain ⟨count,draining⟩ := step_quiet stepped noAdd noDone
  have amount : a.amount = 0 := by cases a <;> simp_all [Action.amount]
  have isDone : a.isDone = false := by cases a <;> simp_all [Action.isDone]
  have reached : (u.reached || (u.wg.count != 0 && wg.count == 0)) = u.reached := by
    rw [count,bne,Bool.not_and_self,Bool.or_false]
  simp only [amount,isDone,reached,Int.add_zero,Bool.toNat_false,Nat.add_zero,Bool.false_and]
  exact { h with count := count.trans h.count, draining := fun v drains => h.draining v (draining v drains) }

theorem Counts.step (h : Counts u) (proper : u.Proper a) (moved : u.step a = some u') : Counts u' := by
  cases a with
  | add t n => exact h.add proper moved
  | done t => exact h.done proper.1 moved
  | _ => exact h.quiet (by simp) (by simp) moved

theorem reachable_wg (u : Use Coro Ctx) (reachable : (machine Coro Ctx).Reachable u) :
    (WaitGroup.machine Coro Ctx).Reachable u.wg := by
  refine (machine Coro Ctx).reachable_project Use.wg (fun u fresh => fresh.1) (fun u u' a moved => .inr ⟨a,?_⟩) reachable
  obtain ⟨wg,stepped,rfl⟩ := Option.map_eq_some_iff.mp moved
  exact stepped

/-- With amounts that are not negative and fit the counter together, a wait group
is a barrier for any number of waiters and calls of `add` and `done`. -/
theorem proper_is_barrier (u : Use Coro Ctx) (within : (machine Coro Ctx).Within Proper u) : IsBarrier u := by
  have counts : Counts u := within.invariant fresh_counts fun _ _ _ before proper moved => before.step proper moved
  refine ⟨?_,counts.drains,?_⟩
  · intro a u' moved completes
    obtain ⟨wg,stepped,rfl⟩ := Option.map_eq_some_iff.mp moved
    have closed : (u.dones : Int) = u.added := by
      rcases completes_from stepped completes with zero | ⟨t,draining⟩
      · exact counts.zero_iff.mp zero
      · exact counts.closed (counts.draining t draining)
    exact ⟨counts.zero_iff.mpr closed,closed⟩
  · intro t
    have counted := (reachable_linked u.wg (reachable_wg u within.reachable)).counted t
    by_cases waiting : u.wg.Waiting t
    · exact Nat.le_of_lt (counted.1 waiting ▸ Nat.lt_succ_self _)
    · exact (counted.2 waiting).symm.le

instance (u : Use Coro Ctx) : (a : Action Coro Ctx) → Decidable (u.Called a)
  | .add _ _ => inferInstanceAs (Decidable (u.reached = false))
  | .done _ => inferInstanceAs (Decidable ((u.dones : Int) < u.added))
  | .wait _ _ _ | .step _ | .spurious _ | .exec _ => inferInstanceAs (Decidable True)

instance (u : Use Coro Ctx) (a : Action Coro Ctx) : Decidable (u.NonNegativeAmounts a) :=
  inferInstanceAs (Decidable (0 ≤ a.amount))

instance (u : Use Coro Ctx) (a : Action Coro Ctx) : Decidable (u.FitsCounter a) :=
  inferInstanceAs (Decidable (u.added + a.amount < 2^32))

instance (u : Use Coro Ctx) (a : Action Coro Ctx) : Decidable (u.Proper a) :=
  inferInstanceAs (Decidable (_ ∧ _ ∧ _))

def ofSingle : Use (Fin 2) Unit := ⟨single,1,0,0,false⟩

private theorem ofSingle_fresh : Fresh ofSingle := ⟨single_fresh,rfl,rfl,rfl,rfl⟩

theorem wait_then_done_is_barrier : ∃ u : Use (Fin 2) Unit,
    (machine (Fin 2) Unit).guardedRun Proper ofSingle waitThenDone = some u ∧
    u.reached = true ∧ u.wg.suspensions 0 = 1 ∧ IsBarrier u := by
  have ran : (((machine (Fin 2) Unit).guardedRun Proper ofSingle waitThenDone).map
      fun u => (u.reached,u.wg.suspensions 0)) = some (true,1) := by decide
  obtain ⟨u,reached,shape⟩ := Option.map_eq_some_iff.mp ran
  simp only [Prod.mk.injEq] at shape
  refine ⟨u,reached,shape.1,shape.2,proper_is_barrier u ?_⟩
  exact Machine.guardedRun_within _ _ _ _ (.start ofSingle_fresh) reached

/-- Four adds whose total is the modulus of the counter, and a waiter about to look at it. -/
def wrapsAround : List (Action (Fin 2) Unit) :=
  [.add 1 (2^31 - 1),.add 1 (2^31 - 1),.add 1 1,.wait 0 0 (),.step 0]

/-- The waiter is linked when the amount is taken back by a negative `add`. -/
def takenBack : List (Action (Fin 2) Unit) :=
  [.wait 0 0 (),.step 0,.step 0,.step 0,.step 0,.add 1 (-1)]

private theorem wraps_around_no_barrier : ¬ ∀ u : Use (Fin 2) Unit,
    (machine (Fin 2) Unit).Within (fun u a => u.Called a ∧ u.NonNegativeAmounts a) u → IsBarrier u := by
  intro claimed
  have ran : (((machine (Fin 2) Unit).guardedRun (fun u a => u.Called a ∧ u.NonNegativeAmounts a) ofSingle wrapsAround).map
      fun u => (u.wg.count,u.wg.pc 0,u.dones,u.added)) = some (0,.loadCount 0,0,2^32) := by decide
  obtain ⟨u,reached,shape⟩ := Option.map_eq_some_iff.mp ran
  simp only [Prod.mk.injEq] at shape
  obtain ⟨zero,waiter,dones,added⟩ := shape
  have within := Machine.guardedRun_within _ _ _ _ (.start ofSingle_fresh) reached
  have moved : WaitGroup.step u.wg (.step 0) = some (u.wg.goto 0 (.awaitResume 0)) := by
    simp only [WaitGroup.step,advance,waiter,zero,if_true]
  have completes : Completes u.wg (u.wg.goto 0 (.awaitResume 0)) :=
    ⟨0,.inl ⟨0,waiter,by simp [State.goto]⟩⟩
  have closed := ((claimed u within).holdsBack (.step 0) _ (by simp only [Use.step,moved,Option.map_some]; rfl) completes).2
  simp [dones,added] at closed

private theorem taken_back_no_barrier : ¬ ∀ u : Use (Fin 2) Unit,
    (machine (Fin 2) Unit).Within (fun u a => u.Called a ∧ u.FitsCounter a) u → IsBarrier u := by
  intro claimed
  have ran : (((machine (Fin 2) Unit).guardedRun (fun u a => u.Called a ∧ u.FitsCounter a) ofSingle takenBack).map
      fun u => (u.reached,u.drains)) = some (true,0) := by decide
  obtain ⟨u,reached,shape⟩ := Option.map_eq_some_iff.mp ran
  simp only [Prod.mk.injEq] at shape
  have within := Machine.guardedRun_within _ _ _ _ (.start ofSingle_fresh) reached
  have once := (claimed u within).drainsOnce
  simp [shape.1,shape.2] at once

/-- Neither amounts that wrap around nor negative amounts leave a barrier. -/
theorem called_no_barrier :
    (¬ ∀ u : Use (Fin 2) Unit, (machine (Fin 2) Unit).Within Called u → IsBarrier u) ∧
    (¬ ∀ u : Use (Fin 2) Unit,
      (machine (Fin 2) Unit).Within (fun u a => u.Called a ∧ u.NonNegativeAmounts a) u → IsBarrier u) ∧
    ¬ ∀ u : Use (Fin 2) Unit,
      (machine (Fin 2) Unit).Within (fun u a => u.Called a ∧ u.FitsCounter a) u → IsBarrier u := by
  refine ⟨fun claimed => taken_back_no_barrier fun u within => ?_,wraps_around_no_barrier,taken_back_no_barrier⟩
  exact claimed u (within.weaken fun _ _ meets => meets.1)

end Use
end TinyCoro.WaitGroup
