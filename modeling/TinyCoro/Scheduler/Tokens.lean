import TinyCoro.Scheduler.Steps
import TinyCoro.Library.Tally
import Mathlib.Data.Fintype.Sum

/-! `m_stop_token` counts the flags of the contexts, up to the halves of submits and
callbacks that have changed a flag and not yet the token. -/
namespace TinyCoro.Scheduler
open Library

variable {n : Nat} {Coro Ext : Type} [DecidableEq Coro] [DecidableEq Ext]

def Submission.adds : Submission n Coro → Int
  | .fetchAdd _ old _ => 1 - old
  | _ => 0

def StopCb.subtracts : StopCb n → Int
  | .fetchSub cnt => cnt
  | _ => 0

def StopCb.notifies : StopCb n → Option (Fin n)
  | .requestStop k | .wakeUp k => some k
  | _ => none

/-- Where the callback of `i` goes on after the two steps of `notify_stop` for `k`. -/
def StopCb.after (k : Fin n) : StopCb n := (next k).elim .fetchAnd .requestStop

section
variable (s : State n Coro Ext) (i k : Fin n)

omit [DecidableEq Coro] [DecidableEq Ext]

@[simp] theorem notified_stopCb : (s.notified i k).stopCb = Function.update s.stopCb i (.after k) := by
  unfold State.notified StopCb.after; cases next k <;> rfl

@[simp] theorem notified_submits : (s.notified i k).submits = s.submits := by
  unfold State.notified; cases next k <;> rfl

@[simp] theorem notified_ctxStopFlag : (s.notified i k).ctxStopFlag = s.ctxStopFlag := by
  unfold State.notified; cases next k <;> rfl

@[simp] theorem notified_stopToken : (s.notified i k).stopToken = s.stopToken := by
  unfold State.notified; cases next k <;> rfl

@[simp] theorem notified_stops : (s.notified i k).stops = s.stops := by
  unfold State.notified; cases next k <;> rfl

@[simp] theorem notified_start : (s.notified i k).start = s.start := by
  unfold State.notified; cases next k <;> rfl

@[simp] theorem notified_spawned : (s.notified i k).spawned = s.spawned := by
  unfold State.notified; cases next k <;> rfl

@[simp] theorem notified_job : (s.notified i k).job = s.job := by
  unfold State.notified; cases next k <;> rfl

@[simp] theorem notified_closed : (s.notified i k).closed = s.closed := by
  unfold State.notified; cases next k <;> rfl

@[simp] theorem notified_cur : (s.notified i k).cur = s.cur := by
  unfold State.notified; cases next k <;> rfl

@[simp] theorem notified_crashed : (s.notified i k).crashed = s.crashed := by
  unfold State.notified; cases next k <;> rfl

theorem notified_ctxs : (s.notified i k).ctxs = s.ctxs ∧ (∃ k', next k = some k') ∨
    next k = none ∧ (s.notified i k).ctxs = Function.update s.ctxs i { s.ctxs i with pc := .doIoSubmit } := by
  unfold State.notified
  cases more : next k with
  | some k' => exact .inl ⟨rfl,k',rfl⟩
  | none => exact .inr ⟨rfl,rfl⟩

theorem notified_keeps {β : Type} (field : Context.State Coro → β) (same : ∀ c, field { c with pc := .doIoSubmit } = field c)
    (j : Fin n) : field ((s.notified i k).ctxs j) = field (s.ctxs j) := by
  rcases notified_ctxs s i k with ⟨all,_⟩ | ⟨_,ends⟩
  · rw [all]
  · rw [ends]
    exact update_keeps field (same _) j

@[simp] theorem after_subtracts : (StopCb.after k).subtracts = 0 := by
  unfold StopCb.after; cases next k <;> rfl

end

/-- Flags, and the values of flags that submits and callbacks carry, are 0 or 1. -/
structure Bits (s : State n Coro Ext) : Prop where
  flags : ∀ i, s.ctxStopFlag i ≤ 1
  olds : ∀ u i old handle, s.submits u = .fetchAdd i old handle → old ≤ 1
  cnts : ∀ i cnt, s.stopCb i = .fetchSub cnt → cnt ≤ 1

def Balanced [Fintype Ext] (s : State n Coro Ext) : Prop :=
  s.stopToken + ∑ u, (s.submits u).adds = ∑ i, (s.ctxStopFlag i : Int) + ∑ i, (s.stopCb i).subtracts

omit [DecidableEq Coro] [DecidableEq Ext] in
theorem fresh_bits (s : State n Coro Ext) (fresh : Fresh s) : Bits s := by
  obtain ⟨_,flag,_,stopCb,submits,_⟩ := fresh
  constructor <;> simp [flag,stopCb,submits]

omit [DecidableEq Coro] [DecidableEq Ext] in
theorem fresh_balanced [Fintype Ext] (s : State n Coro Ext) (fresh : Fresh s) : Balanced s := by
  obtain ⟨token,flag,_,stopCb,submits,_⟩ := fresh
  simp [Balanced,token,flag,stopCb,submits,Submission.adds,StopCb.subtracts]

section
variable {s s' : State n Coro Ext} {a : Action n Coro Ext}

theorem or_one {flag : Nat} (bit : flag ≤ 1) : flag ||| 1 = 1 := by
  rcases Nat.le_one_iff_eq_zero_or_eq_one.mp bit with rfl | rfl <;> rfl

theorem Bits.effect (bits : Bits s) (effect : Effect s a s') : Bits s' := by
  obtain ⟨flags,olds,cnts⟩ := bits
  cases effect with
  | crash | spawn | assign | work | wait | deinit => exact ⟨flags,olds,cnts⟩
  | submit u handle | resume u i handle | load u handle | dispatch u handle ctxId | push u ctxId handle
  | written u ctxId | dropped u ctxId | fetchAdd u ctxId old handle =>
    refine ⟨flags,?_,cnts⟩
    intro v i old' handle' here
    simp only [State.context,State.submitting,Function.update_apply] at here
    split at here
    next => contradiction
    next => exact olds v i old' handle' here
  | fetchOr u ctxId handle =>
    refine ⟨?_,?_,cnts⟩
    · intro i
      simp only [or_one (flags ctxId),Function.update_apply]
      split
      next => exact le_rfl
      next => exact flags i
    · intro v i old' handle' here
      simp only [State.submitting,Function.update_apply] at here
      split at here
      next => cases here; exact flags ctxId
      next => exact olds v i old' handle' here
  | fetchAnd i =>
    refine ⟨?_,olds,?_⟩
    · intro k
      simp only [Function.update_apply]
      split
      next => exact Nat.zero_le 1
      next => exact flags k
    · intro k cnt here
      simp only [Function.update_apply] at here
      split at here
      next => cases here; exact flags i
      next => exact cnts k cnt here
  | stops i cnt | subtracts i cnt | requestStop i k =>
    refine ⟨flags,olds,?_⟩
    intro k' cnt' here
    simp only [State.endCallback,State.context,Function.update_apply] at here
    split at here
    next => contradiction
    next => exact cnts k' cnt' here
  | notified i k | unnotified i k =>
    refine ⟨by simpa [State.context] using flags,by simpa [State.context] using olds,?_⟩
    intro k' cnt' here
    simp only [notified_stopCb,State.context,Function.update_apply] at here
    split at here
    next => unfold StopCb.after at here; cases more : next k <;> simp [more] at here
    next => exact cnts k' cnt' here

omit [DecidableEq Coro] in
theorem Balanced.submitting [Fintype Ext] (balanced : Balanced s) (u : Submitter n Ext) (p : Submission n Coro)
    (submits : s'.submits = Function.update s.submits u p) (flags : s'.ctxStopFlag = s.ctxStopFlag)
    (stopCb : s'.stopCb = s.stopCb) (token : s'.stopToken + p.adds = s.stopToken + (s.submits u).adds) : Balanced s' := by
  unfold Balanced at balanced ⊢
  rw [submits,sum_comp_update Submission.adds,flags,stopCb]
  omega

omit [DecidableEq Coro] [DecidableEq Ext] in
theorem Balanced.calling [Fintype Ext] (balanced : Balanced s) (i : Fin n) (p : StopCb n)
    (stopCb : s'.stopCb = Function.update s.stopCb i p) (flags : s'.ctxStopFlag = s.ctxStopFlag)
    (submits : s'.submits = s.submits) (token : s'.stopToken - p.subtracts = s.stopToken - (s.stopCb i).subtracts) :
    Balanced s' := by
  unfold Balanced at balanced ⊢
  rw [stopCb,sum_comp_update StopCb.subtracts,flags,submits]
  omega

omit [DecidableEq Coro] [DecidableEq Ext] in
theorem idle_of_mayCall {u : Submitter n Ext} (may : s.mayCall u = true) : s.submits u = .idle := by
  have idle : (s.submits u).isIdle = true := by
    cases u with
    | inl i => exact (Bool.and_eq_true_iff.mp may).1
    | inr e => exact may
  cases here : s.submits u with
  | idle => rfl
  | _ => simp [here,Submission.isIdle] at idle

theorem Balanced.effect [Fintype Ext] (balanced : Balanced s) (bits : Bits s) (effect : Effect s a s') : Balanced s' := by
  cases effect with
  | crash | spawn | assign | work | wait | deinit => exact balanced
  | submit u handle may | resume u i handle may =>
    exact balanced.submitting u _ rfl rfl rfl (by rw [idle_of_mayCall may]; rfl)
  | load u handle here | dispatch u handle ctxId here | push u ctxId handle here | written u ctxId here
  | dropped u ctxId here =>
    exact balanced.submitting u _ rfl rfl rfl (by rw [here]; rfl)
  | fetchAdd u ctxId old handle here =>
    exact balanced.submitting u _ rfl rfl rfl (by rw [here]; simp [Submission.adds])
  | fetchOr u ctxId handle here =>
    unfold Balanced at balanced ⊢
    have adds : (s.submits u).adds = 0 := by rw [here]; rfl
    have adds' : (Submission.fetchAdd ctxId (s.ctxStopFlag ctxId) handle).adds = 1 - s.ctxStopFlag ctxId := rfl
    rw [State.submitting,sum_comp_update Submission.adds,sum_comp_update (fun flag : Nat => (flag : Int)),
      or_one (bits.flags ctxId),adds,adds']
    push_cast
    omega
  | fetchAnd i within here =>
    unfold Balanced at balanced ⊢
    have subtracts : (s.stopCb i).subtracts = 0 := by rw [here]; rfl
    have subtracts' : (StopCb.fetchSub (s.ctxStopFlag i) : StopCb n).subtracts = s.ctxStopFlag i := rfl
    rw [sum_comp_update StopCb.subtracts,sum_comp_update (fun flag : Nat => (flag : Int)),subtracts,subtracts']
    push_cast
    omega
  | stops i cnt within here | subtracts i cnt within here =>
    exact balanced.calling i _ rfl rfl rfl (by rw [here]; simp [StopCb.subtracts])
  | requestStop i k within here => exact balanced.calling i _ rfl rfl rfl (by rw [here]; rfl)
  | notified i k within here | unnotified i k within here =>
    refine balanced.calling i (.after k) (by simp [State.context]) (by simp [State.context]) (by simp [State.context]) ?_
    have zero : (StopCb.wakeUp k : StopCb n).subtracts = 0 := rfl
    rw [here,zero,after_subtracts]
    simp [State.context]

end

theorem reachable_balanced [Fintype Ext] (s : State n Coro Ext) (reachable : (machine n Coro Ext).Reachable s) :
    Balanced s := by
  have both : Bits s ∧ Balanced s :=
    Machine.Within.invariant (fun s fresh => And.intro (fresh_bits s fresh) (fresh_balanced s fresh))
      (fun _ _ _ before _ moved => And.intro (before.1.effect (effect_step moved).2)
        (before.2.effect before.1 (effect_step moved).2)) reachable
  exact both.2

end TinyCoro.Scheduler
