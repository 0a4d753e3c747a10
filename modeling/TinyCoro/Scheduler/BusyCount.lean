import TinyCoro.Scheduler.Tokens
import TinyCoro.Library.Membership

/-! The accounting of busy contexts. Submitters that have set a flag and not yet
raised the token, and callbacks that have cleared one and not yet lowered it, are
all that keeps the token from being the number of flagged contexts. -/
namespace TinyCoro.Scheduler
open Library

/-- What a run shows of the flags and the token: a `fetch_or` that returned 0, a
`fetch_and` that returned 1, and the changes of the token that follow them. -/
inductive Tick (n : Nat)
  | raised (i : Fin n)
  | cleared (i : Fin n)
  | added (i : Fin n)
  | subtracted (i : Fin n)
  deriving DecidableEq

/-- How often, in all, the token counts a context. -/
def counted {n : Nat} (ticks : List (Tick n)) (i : Fin n) : Int := 1 + ticks.count (.added i) - ticks.count (.subtracted i)

section
variable {n : Nat} {Coro Ext : Type} (s : State n Coro Ext)

def ticks : Action n Coro Ext → List (Tick n)
  | .proceed u =>
    match s.submits u with
    | .fetchOr ctxId _ => if s.ctxStopFlag ctxId = 0 then [.raised ctxId] else []
    | .fetchAdd ctxId old _ => if old = 0 then [.added ctxId] else []
    | _ => []
  | .callback i =>
    match s.stopCb i with
    | .fetchAnd => if s.ctxStopFlag i = 1 then [.cleared i] else []
    | .fetchSub cnt => if cnt = 1 then [.subtracted i] else []
    | _ => []
  | _ => []

def State.adding : Set (Submitter n Ext) := {u | (s.submits u).raised.isSome}

def State.addingTo (i : Fin n) : Set (Submitter n Ext) := {u | (s.submits u).raised = some i}

/-- Callbacks between a `fetch_and` that returned 1 and their `fetch_sub`. -/
def State.subtracting : Set (Fin n) := {i | s.stopCb i = .fetchSub 1}

def State.flagged : Set (Fin n) := {i | s.ctxStopFlag i = 1}

/-- The token counts the flagged contexts, up to the operations that are half done. -/
structure Conserved : Prop where
  finite : s.adding.Finite
  counts : s.stopToken + s.adding.ncard - s.subtracting.ncard = s.flagged.ncard
  bits : ∀ i, s.ctxStopFlag i = 0 ∨ s.ctxStopFlag i = 1
  settled : s.adding = ∅ → s.subtracting = ∅ →
    s.stopToken = s.flagged.ncard ∧ 0 ≤ s.stopToken ∧ s.stopToken ≤ n

end

structure Booked {n : Nat} {Coro Ext : Type} (events : List (Tick n)) (s : State n Coro Ext) : Prop where
  bits : Bits s
  turns : ∀ i, 1 + events.count (.raised i) = events.count (.cleared i) + s.ctxStopFlag i
  submits : ∀ i, Sized (s.addingTo i) (events.count (.raised i) - events.count (.added i))
  callbacks : ∀ i, (events.count (.cleared i) : Int) = events.count (.subtracted i) + (s.stopCb i).subtracts
  token : s.stopToken = ∑ i, counted events i

variable {n : Nat} {Coro Ext : Type} [DecidableEq Coro] [DecidableEq Ext]
variable {s s' : State n Coro Ext} {events : List (Tick n)} {a : Action n Coro Ext}

omit [DecidableEq Coro] [DecidableEq Ext] in
theorem Booked.quiet (booked : Booked events s) (bits : Bits s') (none : ticks s a = [])
    (flags : s'.ctxStopFlag = s.ctxStopFlag) (submits : ∀ u, (s'.submits u).raised = (s.submits u).raised)
    (stopCb : ∀ i, (s'.stopCb i).subtracts = (s.stopCb i).subtracts) (token : s'.stopToken = s.stopToken) :
    Booked (events ++ ticks s a) s' := by
  have adding : ∀ i, s'.addingTo i = s.addingTo i := by
    intro i
    ext u
    simp [State.addingTo,submits]
  rw [none,List.append_nil]
  refine ⟨bits,?_,?_,?_,?_⟩
  · simpa only [flags] using booked.turns
  · simpa only [adding] using booked.submits
  · simpa only [stopCb] using booked.callbacks
  · exact token.trans booked.token

private theorem sum_counted_added (i : Fin n) : ∑ k, counted (events ++ [.added i]) k = ∑ k, counted events k + 1 := by
  have one : ∀ k, counted (events ++ [.added i]) k = counted events k + if k = i then 1 else 0 := by
    intro k
    by_cases same : k = i
    · simp [counted,same]
      omega
    · simp [counted,same,Ne.symm same]
  simp only [one,Finset.sum_add_distrib,Finset.sum_ite_eq',Finset.mem_univ,if_true]

private theorem sum_counted_subtracted (i : Fin n) :
    ∑ k, counted (events ++ [.subtracted i]) k = ∑ k, counted events k - 1 := by
  have one : ∀ k, counted (events ++ [.subtracted i]) k = counted events k - if k = i then 1 else 0 := by
    intro k
    by_cases same : k = i
    · simp [counted,same]
      omega
    · simp [counted,same,Ne.symm same]
  simp only [one,Finset.sum_sub_distrib,Finset.sum_ite_eq',Finset.mem_univ,if_true]

omit [DecidableEq Coro] in
private theorem Booked.raise (booked : Booked events s) {u : Submitter n Ext} {ctxId : Fin n} {handle : Coro} (bits : Bits s')
    (here : s.submits u = .fetchOr ctxId handle) (clear : s.ctxStopFlag ctxId = 0)
    (submits : s'.submits = Function.update s.submits u (.fetchAdd ctxId 0 handle))
    (flags : s'.ctxStopFlag = Function.update s.ctxStopFlag ctxId 1) (stopCb : s'.stopCb = s.stopCb)
    (token : s'.stopToken = s.stopToken) : Booked (events ++ [.raised ctxId]) s' := by
  refine ⟨bits,?_,?_,?_,?_⟩
  · intro i
    have before := booked.turns i
    by_cases same : i = ctxId
    · subst same
      rw [flags,Function.update_self]
      simp
      omega
    · simpa [flags,same,Ne.symm same] using before
  · intro i
    refine (booked.submits i).moves u ?_ ?_
    · intro v other
      simp [State.addingTo,submits,other]
    · by_cases same : i = ctxId
      · subst same
        apply Moves.joins
        · simp [State.addingTo,here,Submission.raised]
        · simp [State.addingTo,submits,Submission.raised]
        · simp
          omega
      · apply Moves.stays
        · simp [State.addingTo,submits,here,Submission.raised,Ne.symm same]
        · simp [Ne.symm same]
  · simpa [stopCb] using booked.callbacks
  · simpa [token,counted] using booked.token

omit [DecidableEq Coro] in
theorem Booked.add (booked : Booked events s) {u : Submitter n Ext} {ctxId : Fin n} {handle : Coro} {p : Submission n Coro}
    (bits : Bits s') (here : s.submits u = .fetchAdd ctxId 0 handle) (done : p.raised = none)
    (submits : s'.submits = Function.update s.submits u p) (flags : s'.ctxStopFlag = s.ctxStopFlag)
    (stopCb : s'.stopCb = s.stopCb) (token : s'.stopToken = s.stopToken + 1) : Booked (events ++ [.added ctxId]) s' := by
  have before : (s.submits u).raised = some ctxId := by rw [here]; rfl
  refine ⟨bits,?_,?_,?_,?_⟩
  · simpa [flags] using booked.turns
  · intro i
    refine (booked.submits i).moves u ?_ ?_
    · intro v other
      simp [State.addingTo,submits,other]
    · by_cases same : i = ctxId
      · subst same
        apply Moves.leaves
        · exact before
        · simp [State.addingTo,submits,done]
        · simp
          omega
      · apply Moves.stays
        · simp [State.addingTo,submits,before,done,Ne.symm same]
        · simp [Ne.symm same]
  · simpa [stopCb] using booked.callbacks
  · rw [token,sum_counted_added,booked.token]

omit [DecidableEq Coro] [DecidableEq Ext] in
theorem Booked.clear (booked : Booked events s) {i : Fin n} (bits : Bits s') (here : s.stopCb i = .fetchAnd)
    (set : s.ctxStopFlag i = 1) (submits : s'.submits = s.submits) (flags : s'.ctxStopFlag = Function.update s.ctxStopFlag i 0)
    (stopCb : s'.stopCb = Function.update s.stopCb i (.fetchSub 1)) (token : s'.stopToken = s.stopToken) :
    Booked (events ++ [.cleared i]) s' := by
  refine ⟨bits,?_,?_,?_,?_⟩
  · intro k
    have before := booked.turns k
    by_cases same : k = i
    · subst same
      rw [flags,Function.update_self]
      simp
      omega
    · simpa [flags,same,Ne.symm same] using before
  · simpa [State.addingTo,submits] using booked.submits
  · intro k
    have before := booked.callbacks k
    by_cases same : k = i
    · subst same
      rw [here] at before
      simp only [stopCb,Function.update_self,StopCb.subtracts] at before ⊢
      simp
      omega
    · simpa [stopCb,same,Ne.symm same] using before
  · simpa [token,counted] using booked.token

omit [DecidableEq Coro] [DecidableEq Ext] in
theorem Booked.subtract (booked : Booked events s) {i : Fin n} {p : StopCb n} (bits : Bits s')
    (here : s.stopCb i = .fetchSub 1) (done : p.subtracts = 0) (submits : s'.submits = s.submits)
    (flags : s'.ctxStopFlag = s.ctxStopFlag) (stopCb : s'.stopCb = Function.update s.stopCb i p)
    (token : s'.stopToken = s.stopToken - 1) : Booked (events ++ [.subtracted i]) s' := by
  refine ⟨bits,?_,?_,?_,?_⟩
  · simpa [flags] using booked.turns
  · simpa [State.addingTo,submits] using booked.submits
  · intro k
    have before := booked.callbacks k
    by_cases same : k = i
    · subst same
      have one : (StopCb.fetchSub 1 : StopCb n).subtracts = 1 := rfl
      rw [here,one] at before
      rw [stopCb,Function.update_self,done]
      simp
      omega
    · simpa [stopCb,same,Ne.symm same] using before
  · rw [token,sum_counted_subtracted,booked.token]

private theorem ticks_crash (alive : s.crashed = false) (moved : step s a = some { s with crashed := true }) : ticks s a = [] := by
  have ends := congrArg (Option.map State.crashed) moved
  simp only [step,alive,Bool.false_eq_true,if_false,Option.map_some] at ends
  unfold ticks
  split
  next u =>
    split
    next ctxId handle here => simp [act,proceed,here,State.submitting,alive] at ends
    next ctxId old handle here => simp [act,proceed,here,State.submitting,alive] at ends
    next => rfl
  next i =>
    simp only [act,callback] at ends
    split
    next here =>
      simp only [here] at ends
      split at ends <;> simp [alive] at ends
    next cnt here =>
      simp only [here] at ends
      split at ends
      next =>
        split at ends <;> simp [alive,State.endCallback,State.context] at ends
      next => simp at ends
    next => rfl
  next => rfl

theorem Booked.step (booked : Booked events s) (moved : Scheduler.step s a = some s') : Booked (events ++ ticks s a) s' := by
  obtain ⟨alive,effect⟩ := effect_step moved
  have bits := booked.bits.effect effect
  cases effect with
  | crash => exact booked.quiet bits (ticks_crash alive moved) rfl (fun _ => rfl) (fun _ => rfl) rfl
  | spawn | assign | work | wait | deinit => exact booked.quiet bits rfl rfl (fun _ => rfl) (fun _ => rfl) rfl
  | submit u handle may | resume u i handle may =>
    exact booked.quiet bits rfl rfl (update_keeps Submission.raised (by rw [idle_of_mayCall may]; rfl)) (fun _ => rfl) rfl
  | load u handle here | dispatch u handle ctxId here | push u ctxId handle here | written u ctxId here
  | dropped u ctxId here =>
    exact booked.quiet bits (by simp only [ticks,here]) rfl (update_keeps Submission.raised (by rw [here]; rfl))
      (fun _ => rfl) rfl
  | fetchOr u ctxId handle here =>
    have clear_or_set := Nat.le_one_iff_eq_zero_or_eq_one.mp (booked.bits.flags ctxId)
    rcases clear_or_set with clear | set
    · have shown : ticks s (.proceed u) = [.raised ctxId] := by simp only [ticks,here,clear,if_true]
      rw [shown]
      exact booked.raise bits here clear (by rw [clear]; rfl) (by rw [clear]; rfl) rfl rfl
    · refine booked.quiet bits (by simp [ticks,here,set]) ?_ ?_ (fun _ => rfl) rfl
      · exact Function.update_eq_self_iff.mpr (by rw [set]; rfl)
      · exact update_keeps Submission.raised (by rw [here,set]; rfl)
  | fetchAdd u ctxId old handle here =>
    have found := Nat.le_one_iff_eq_zero_or_eq_one.mp (booked.bits.olds u ctxId old handle here)
    rcases found with rfl | rfl
    · have shown : ticks s (.proceed u) = [.added ctxId] := by simp only [ticks,here,if_true]
      rw [shown]
      exact booked.add bits here rfl rfl rfl rfl rfl
    · exact booked.quiet bits (by simp [ticks,here]) rfl (update_keeps Submission.raised (by rw [here]; rfl)) (fun _ => rfl)
        (by simp)
  | fetchAnd i within here =>
    have clear_or_set := Nat.le_one_iff_eq_zero_or_eq_one.mp (booked.bits.flags i)
    rcases clear_or_set with clear | set
    · refine booked.quiet bits (by simp [ticks,here,clear]) ?_ (fun _ => rfl) ?_ rfl
      · exact Function.update_eq_self_iff.mpr clear.symm
      · exact update_keeps StopCb.subtracts (by rw [here,clear]; rfl)
    · have shown : ticks s (.callback i) = [.cleared i] := by simp only [ticks,here,set,if_true]
      rw [shown]
      exact booked.clear bits here set rfl rfl (by rw [set]) rfl
  | stops i cnt within here | subtracts i cnt within here =>
    have found := Nat.le_one_iff_eq_zero_or_eq_one.mp (booked.bits.cnts i cnt here)
    rcases found with rfl | rfl
    · exact booked.quiet bits (by simp [ticks,here]) rfl (fun _ => rfl)
        (update_keeps StopCb.subtracts (by rw [here]; rfl)) (by simp)
    · have shown : ticks s (.callback i) = [.subtracted i] := by simp only [ticks,here,if_true]
      rw [shown]
      exact booked.subtract bits here rfl rfl rfl rfl rfl
  | requestStop i k within here =>
    exact booked.quiet bits (by simp only [ticks,here]) rfl (fun _ => rfl)
      (update_keeps StopCb.subtracts (by rw [here]; rfl)) rfl
  | notified i k within here | unnotified i k within here =>
    have zero : (StopCb.wakeUp k : StopCb n).subtracts = 0 := rfl
    refine booked.quiet bits (by simp only [ticks,here]) (by simp [State.context]) (by simp [State.context]) ?_
      (by simp [State.context])
    rw [notified_stopCb]
    exact update_keeps StopCb.subtracts (by rw [after_subtracts]; simp [State.context,here,zero])

omit [DecidableEq Coro] [DecidableEq Ext] in
theorem Bits.subtracts (bits : Bits s) (i : Fin n) : (s.stopCb i).subtracts = if s.stopCb i = .fetchSub 1 then 1 else 0 := by
  cases here : s.stopCb i with
  | fetchSub cnt => rcases Nat.le_one_iff_eq_zero_or_eq_one.mp (bits.cnts i cnt here) with rfl | rfl <;> rfl
  | _ => rfl

omit [DecidableEq Coro] [DecidableEq Ext] in
theorem Bits.flag (bits : Bits s) (i : Fin n) : (s.ctxStopFlag i : Int) = if s.ctxStopFlag i = 1 then 1 else 0 := by
  rcases Nat.le_one_iff_eq_zero_or_eq_one.mp (bits.flags i) with flag | flag <;> simp [flag]

omit [DecidableEq Coro] [DecidableEq Ext] in
private theorem Booked.addingTo (booked : Booked events s) (i : Fin n) :
    Sized (s.addingTo i) (s.ctxStopFlag i + (s.stopCb i).subtracts - counted events i) := by
  obtain ⟨finite,size⟩ := booked.submits i
  have turns := booked.turns i
  have callbacks := booked.callbacks i
  refine ⟨finite,?_⟩
  unfold counted
  omega

omit [DecidableEq Coro] [DecidableEq Ext] in
private theorem Booked.adding (booked : Booked events s) :
    Sized s.adding (s.flagged.ncard + s.subtracting.ncard - s.stopToken) := by
  have all := Sized.places booked.addingTo
  simp only [Finset.sum_sub_distrib,Finset.sum_add_distrib,booked.bits.subtracts,booked.bits.flag,sum_ncard,← booked.token] at all
  exact all

omit [DecidableEq Coro] [DecidableEq Ext] in
private theorem Booked.conserved (booked : Booked events s) : Conserved s := by
  obtain ⟨finite,size⟩ := booked.adding
  have few : s.flagged.ncard ≤ n := (Set.ncard_le_card _).trans_eq (Nat.card_fin n)
  refine ⟨finite,?_,?_,?_⟩
  · omega
  · exact fun i => Nat.le_one_iff_eq_zero_or_eq_one.mp (booked.bits.flags i)
  · intro none none'
    rw [none,none',Set.ncard_empty,Set.ncard_empty] at size
    omega

omit [DecidableEq Coro] [DecidableEq Ext] in
/-- `m_stop_token` is an `atomic<int>`: it does not wrap around with fewer than
`2^30` contexts and up to `2^31` submitters between their two atomics. -/
theorem Conserved.fits (conserved : Conserved s) (contexts : n < 2^30) (submitters : s.adding.ncard ≤ 2^31) :
    -2^31 ≤ s.stopToken ∧ s.stopToken < 2^31 := by
  have counts := conserved.counts
  have flagged : s.flagged.ncard ≤ n := (Set.ncard_le_card _).trans_eq (Nat.card_fin n)
  have subtracting : s.subtracting.ncard ≤ n := (Set.ncard_le_card _).trans_eq (Nat.card_fin n)
  omega

end TinyCoro.Scheduler
