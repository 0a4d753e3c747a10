import TinyCoro.Engine.Rings

/-! The io counters of the engine against what the kernel has accepted, and the
buffer of completions against the number of pending operations. -/
namespace TinyCoro.Engine
open Library Context

variable {Op : Type}

structure Matches (s : State Op) : Prop where
  running : s.numIoRunning = s.inKernel.length + s.cq.length
  queued : s.numIoWaitSubmit = s.sq.length
  again : s.sq ≠ [] → ∀ ret, (s.doIoSubmit ret).inKernel = s.inKernel ++ s.sq.take ret.toNat

def AcceptsAll (s : State Op) : Action Op → Prop
  | .doIoSubmit ret | .pollSubmit ret => 0 < s.numIoWaitSubmit → ret = s.sq.length
  | _ => True

instance (s : State Op) (a : Action Op) : Decidable (AcceptsAll s a) := by
  cases a <;> unfold AcceptsAll <;> infer_instance

private theorem matches_iff (s : State Op) :
    Matches s ↔ s.numIoRunning = s.inKernel.length + s.cq.length ∧ s.numIoWaitSubmit = s.sq.length := by
  constructor
  · exact fun agrees => ⟨agrees.running,agrees.queued⟩
  · rintro ⟨running,queued⟩
    refine ⟨running,queued,fun left ret => ?_⟩
    have some : 0 < s.numIoWaitSubmit := queued ▸ List.length_pos_iff.mpr left
    rw [State.doIoSubmit,if_pos some,State.submit]

/-- A submit keeps the agreement exactly when it accepts everything. -/
theorem doIoSubmit_matches_iff {s : State Op} (agrees : Matches s) (ret : Int) (within : ret ≤ s.sq.length) :
    Matches (s.doIoSubmit ret) ↔ (0 < s.numIoWaitSubmit → ret = s.sq.length) := by
  have running := agrees.running
  have queued := agrees.queued
  unfold State.doIoSubmit
  split
  next some =>
    simp only [matches_iff,State.submit,List.length_append,List.length_take,List.length_drop,some,forall_const]
    omega
  next none => exact iff_of_true agrees fun some => absurd some none

private theorem reap_matches {s : State Op} (agrees : Matches s) : Matches s.reap := by
  have running := agrees.running
  have queued := agrees.queued
  rw [matches_iff]
  simp only [State.reap,List.length_drop]
  refine ⟨?_,queued⟩
  omega

private theorem matches_step {entries : Nat} (s t : State Op) (a : Action Op) (agrees : Matches s)
    (moved : step entries s a = some t) : Matches t ↔ AcceptsAll s a := by
  have running := agrees.running
  have queued := agrees.queued
  cases a with
  | addIoSubmit op =>
    simp only [step] at moved
    split at moved
    next =>
      cases moved
      refine iff_of_true ?_ trivial
      simp only [matches_iff,List.length_append,List.length_singleton]
      exact ⟨running,by omega⟩
    next => contradiction
  | doIoSubmit ret =>
    simp only [step] at moved
    split at moved
    next call => cases moved; exact doIoSubmit_matches_iff agrees ret call.2
    next => contradiction
  | pollSubmit ret =>
    simp only [step] at moved
    split at moved
    next call =>
      cases moved
      rw [AcceptsAll,← doIoSubmit_matches_iff agrees ret call.2,matches_iff,matches_iff]
    next => contradiction
  | wakeUp val =>
    cases moved
    exact iff_of_true ((matches_iff _).mpr ⟨running,queued⟩) trivial
  | complete i =>
    simp only [step] at moved
    split at moved
    next => contradiction
    next op here =>
      cases moved
      obtain ⟨short,_⟩ := List.getElem?_eq_some_iff.mp here
      refine iff_of_true ?_ trivial
      simp only [matches_iff,List.length_append,List.length_singleton,List.length_eraseIdx_of_lt short]
      exact ⟨by omega,queued⟩
  | waitEventfd =>
    simp only [step] at moved
    split at moved
    next =>
      have read : Matches { s with efd := 0, waiting := false } := (matches_iff _).mpr ⟨running,queued⟩
      cases moved
      refine iff_of_true ?_ trivial
      split
      next => exact reap_matches read
      next => exact read
    next => contradiction

private theorem fresh_matches (s : State Op) (fresh : Fresh s) : Matches s := by
  obtain ⟨sq,inKernel,cq,waits,running,_⟩ := fresh
  simp [matches_iff,sq,inKernel,cq,waits,running]

/-- In a run the counters follow the kernel exactly when every submit that the
engine makes accepts the whole ring. -/
theorem follows_kernel_iff (entries : Nat) (s₀ s : State Op) (actions : List (Action Op)) (fresh : Fresh s₀)
    (ran : (machine Op entries).run s₀ actions = some s) :
    (machine Op entries).Always Matches s₀ actions ↔ (machine Op entries).Meets AcceptsAll s₀ actions :=
  Machine.always_iff_meets (fun _ => True) (fun _ _ _ _ _ => trivial)
    (fun s t a _ agrees moved => matches_step s t a agrees moved) actions s₀ s ran trivial (fresh_matches s₀ fresh)

def twoComplete : List (Action Nat) :=
  [.addIoSubmit 0,.addIoSubmit 1,.pollSubmit 2,.complete 1,.complete 0,.waitEventfd]

theorem two_complete_follows_kernel :
    (machine Nat kEntryLength).Always Matches initial twoComplete := by
  refine (follows_kernel_iff kEntryLength initial ⟨[],[],[],0,0,0,false,[⟨2,2⟩]⟩ twoComplete initial_fresh (by decide)).mpr ?_
  simp [twoComplete,Machine.Meets,AcceptsAll,machine,step,initial,State.doIoSubmit,State.submit,kEntryLength]

/-- A submit that the kernel refuses leaves its entry in the ring, counted as running. -/
theorem refused_submit_forgotten : ¬ ∀ (actions : List (Action Nat)) (s : State Nat),
    (machine Nat kEntryLength).run initial actions = some s → Matches s := by
  intro claimed
  have agrees := claimed [.addIoSubmit 0,.doIoSubmit (-11)] ⟨[0],[],[],0,1,0,false,[]⟩ (by decide)
  exact absurd agrees.running (by decide)

end TinyCoro.Engine
