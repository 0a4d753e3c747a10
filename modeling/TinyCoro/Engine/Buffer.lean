import TinyCoro.Engine.Rings

/-! The buffer `m_urc` of completions: how many entries `peek_batch_cqe` may fill
depends on the number of pending operations only. -/
namespace TinyCoro.Engine
open Library Context

variable {Op : Type}

def State.pending (s : State Op) : Nat := s.sq.length + s.inKernel.length + s.cq.length

/-- The argument and every index that is written, and then read by the loop. -/
def Peek.InBounds (p : Peek) : Prop := p.count ≤ kQueCap ∧ ∀ i < p.num, i < kQueCap

def PeeksInBounds (s : State Op) : Prop := ∀ p ∈ s.peeks, p.InBounds

/-- A `poll_submit` that a completion wakes finds few enough operations pending. -/
def FewPending (s : State Op) : Action Op → Prop
  | .waitEventfd => wakeByCqe s.efd → s.pending % 2^32 ≤ kQueCap
  | _ => True

structure Counted (s : State Op) : Prop where
  total : s.pending = s.numIoWaitSubmit + s.numIoRunning
  submitted : s.waiting = true → s.numIoWaitSubmit = 0

theorem fresh_counted (s : State Op) (fresh : Fresh s) : Counted s := by
  obtain ⟨sq,inKernel,cq,waits,running,_,waiting,_⟩ := fresh
  constructor <;> simp [State.pending,sq,inKernel,cq,waits,running,waiting]

theorem Counted.doIoSubmit {s : State Op} (counted : Counted s) (ret : Int) :
    Counted (s.doIoSubmit ret) ∧ (s.doIoSubmit ret).numIoWaitSubmit = 0 := by
  have total := counted.total
  unfold State.doIoSubmit
  split
  next some =>
    refine ⟨⟨?_,fun _ => rfl⟩,rfl⟩
    simp only [State.pending,State.submit,List.length_append,List.length_take,List.length_drop] at total ⊢
    omega
  next none => exact ⟨counted,by omega⟩

theorem Counted.reap {s : State Op} (counted : Counted s) (waits : s.numIoWaitSubmit = 0) : Counted s.reap := by
  have total := counted.total
  refine ⟨?_,fun _ => waits⟩
  simp only [State.pending,State.reap,List.length_drop] at total ⊢
  omega

theorem Counted.step {entries : Nat} {s t : State Op} {a : Action Op} (counted : Counted s)
    (moved : step entries s a = some t) : Counted t := by
  have total := counted.total
  cases a with
  | addIoSubmit op =>
    simp only [Engine.step] at moved
    split at moved
    next call =>
      cases moved
      refine ⟨?_,fun waiting => ?_⟩
      · simp only [State.pending,List.length_append,List.length_singleton] at total ⊢
        omega
      · rw [call.1] at waiting
        contradiction
    next => contradiction
  | doIoSubmit ret =>
    simp only [Engine.step] at moved
    split at moved
    next => cases moved; exact (counted.doIoSubmit ret).1
    next => contradiction
  | pollSubmit ret =>
    simp only [Engine.step] at moved
    split at moved
    next =>
      cases moved
      obtain ⟨after,none⟩ := counted.doIoSubmit ret
      exact ⟨after.total,fun _ => none⟩
    next => contradiction
  | wakeUp val => cases moved; exact { counted with }
  | complete i =>
    simp only [Engine.step] at moved
    split at moved
    next => contradiction
    next op here =>
      cases moved
      obtain ⟨short,_⟩ := List.getElem?_eq_some_iff.mp here
      refine ⟨?_,counted.submitted⟩
      simp only [State.pending,List.length_append,List.length_singleton,List.length_eraseIdx_of_lt short] at total ⊢
      omega
  | waitEventfd =>
    simp only [Engine.step] at moved
    split at moved
    next woken =>
      have waits := counted.submitted woken.1
      have read : Counted { s with efd := 0, waiting := false } := ⟨counted.total,fun _ => waits⟩
      cases moved
      split
      next => exact read.reap waits
      next => exact read
    next => contradiction

private theorem Peek.inBounds_iff {p : Peek} (fewer : p.num ≤ p.count) : p.InBounds ↔ p.count ≤ kQueCap :=
  ⟨And.left,fun count => ⟨count,fun i here => by omega⟩⟩

private theorem reap_inBounds_iff {s : State Op} (within : PeeksInBounds s) (counted : Counted s) (waits : s.numIoWaitSubmit = 0) :
    PeeksInBounds s.reap ↔ s.pending % 2^32 ≤ kQueCap := by
  have running : s.pending = s.numIoRunning := by rw [counted.total,waits,Nat.zero_add]
  rw [running,← Peek.inBounds_iff (p := ⟨s.numIoRunning % 2^32,min s.cq.length (s.numIoRunning % 2^32)⟩) (Nat.min_le_right ..)]
  constructor
  · exact fun all => all _ (by simp [State.reap])
  · intro last p member
    rcases List.mem_append.mp member with before | new
    · exact within p before
    · rw [List.mem_singleton.mp new]
      exact last

private theorem doIoSubmit_peeks (s : State Op) (ret : Int) : (s.doIoSubmit ret).peeks = s.peeks := by
  unfold State.doIoSubmit
  split <;> rfl

private theorem inBounds_step {entries : Nat} (s t : State Op) (a : Action Op) (counted : Counted s) (within : PeeksInBounds s)
    (moved : step entries s a = some t) : PeeksInBounds t ↔ FewPending s a := by
  cases a with
  | waitEventfd =>
    simp only [Engine.step] at moved
    split at moved
    next woken =>
      have waits := counted.submitted woken.1
      have read : Counted { s with efd := 0, waiting := false } := ⟨counted.total,fun _ => waits⟩
      cases moved
      split
      next cqe =>
        simp only [FewPending,cqe,forall_const]
        exact reap_inBounds_iff (s := { s with efd := 0, waiting := false }) within read waits
      next other => exact iff_of_true within fun cqe => absurd cqe other
    next => contradiction
  | wakeUp val => cases moved; exact iff_of_true within trivial
  | _ =>
    simp only [Engine.step] at moved
    split at moved
    all_goals cases moved
    all_goals exact iff_of_true (by simpa only [PeeksInBounds,doIoSubmit_peeks] using within) trivial

/-- In a run the buffer is never overrun exactly when every `poll_submit` that a
completion wakes finds few enough operations pending. -/
theorem never_overrun_iff (entries : Nat) (s₀ s : State Op) (actions : List (Action Op)) (fresh : Fresh s₀)
    (ran : (machine Op entries).run s₀ actions = some s) :
    (machine Op entries).Always PeeksInBounds s₀ actions ↔ (machine Op entries).Meets FewPending s₀ actions := by
  have peeks : s₀.peeks = [] := fresh.2.2.2.2.2.2.2
  exact Machine.always_iff_meets Counted (fun _ _ _ counted moved => counted.step moved)
    (fun s t a counted within moved => inBounds_step s t a counted within moved) actions s₀ s ran
    (fresh_counted s₀ fresh) (by simp [PeeksInBounds,peeks])

theorem one_completes_in_bounds :
    (machine Nat kEntryLength).Always PeeksInBounds initial [.addIoSubmit 0,.pollSubmit 1,.complete 0,.waitEventfd] := by
  refine (never_overrun_iff kEntryLength initial ⟨[],[],[],0,0,0,false,[⟨1,1⟩]⟩ _ initial_fresh (by decide)).mpr ?_
  simp [Machine.Meets,FewPending,machine,step,initial,State.doIoSubmit,State.submit,kEntryLength,State.pending,kQueCap]

theorem run_adds (entries n : Nat) (s : State Nat) (outside : s.waiting = false) (room : s.sq.length + n ≤ entries) :
    (machine Nat entries).run s (List.replicate n (.addIoSubmit 0)) =
      some { s with sq := s.sq ++ List.replicate n 0, numIoWaitSubmit := s.numIoWaitSubmit + n } := by
  induction n generalizing s with
  | zero => simp [Machine.run]
  | succ n ih =>
    have first : step entries s (.addIoSubmit 0) =
        some { s with sq := s.sq ++ [0], numIoWaitSubmit := s.numIoWaitSubmit + 1 } := if_pos ⟨outside,by omega⟩
    have rest := ih { s with sq := s.sq ++ [0], numIoWaitSubmit := s.numIoWaitSubmit + 1 } outside
      (by simp only [List.length_append,List.length_singleton]; omega)
    rw [List.replicate_succ,Machine.run]
    change (step entries s (.addIoSubmit 0)).bind _ = _
    rw [first,Option.bind_some,rest]
    simp [List.replicate_succ,Nat.add_assoc,Nat.add_comm 1]

theorem run_completes (entries n : Nat) (s : State Nat) (accepted : s.inKernel = List.replicate n 0) :
    (machine Nat entries).run s (List.replicate n (.complete 0)) =
      some { s with inKernel := [], cq := s.cq ++ List.replicate n 0, efd := s.efd + n } := by
  induction n generalizing s with
  | zero =>
    obtain ⟨sq,inKernel,cq,_⟩ := s
    simp_all [Machine.run]
  | succ n ih =>
    have first : step entries s (.complete 0) =
        some { s with inKernel := List.replicate n 0, cq := s.cq ++ [0], efd := s.efd + 1 } := by
      simp only [step,accepted,List.replicate_succ,List.getElem?_cons_zero,List.eraseIdx_cons_zero]
    rw [List.replicate_succ,Machine.run]
    change (step entries s (.complete 0)).bind _ = _
    rw [first,Option.bind_some,ih _ rfl]
    simp [List.replicate_succ,Nat.add_assoc,Nat.add_comm 1]

def round (n : Nat) : List (Action Nat) := List.replicate n (Action.addIoSubmit 0) ++ [Action.doIoSubmit n]

theorem run_round (entries n : Nat) (s : State Nat) (outside : s.waiting = false) (drained : s.sq = [])
    (none : s.numIoWaitSubmit = 0) (room : n ≤ entries) :
    (machine Nat entries).run s (round n) =
      some { s with inKernel := s.inKernel ++ List.replicate n 0, numIoRunning := s.numIoRunning + n } := by
  have adds := run_adds entries n s outside (by simpa [drained] using room)
  have submits : step entries { s with sq := List.replicate n 0, numIoWaitSubmit := n } (.doIoSubmit n) =
      some { s with inKernel := s.inKernel ++ List.replicate n 0, numIoRunning := s.numIoRunning + n } := by
    cases n with
    | zero => simp [step,outside,State.doIoSubmit,drained,none]
    | succ n => simp [step,outside,State.doIoSubmit,State.submit,drained,none]
  rw [drained,none,List.nil_append,Nat.zero_add] at adds
  rw [round,Machine.run_append,adds,Option.bind_some,Machine.run_single]
  exact submits

def twoRounds (n : Nat) : List (Action Nat) :=
  round n ++ round n ++ [Action.pollSubmit 0] ++ List.replicate (n + n) (Action.complete 0) ++ [Action.waitEventfd]

theorem run_twoRounds (entries n : Nat) (room : n ≤ entries) (some : 0 < n) (few : n + n < 2^24) :
    (machine Nat entries).run initial (twoRounds n) = Option.some ⟨[],[],[],0,0,0,false,[⟨n + n,n + n⟩]⟩ := by
  have first := run_round entries n initial rfl rfl rfl room
  have second := run_round entries n ⟨[],List.replicate n 0,[],0,n,0,false,[]⟩ rfl rfl rfl room
  have polls : (machine Nat entries).step ⟨[],List.replicate (n + n) 0,[],0,n + n,0,false,[]⟩ (.pollSubmit 0) =
      Option.some ⟨[],List.replicate (n + n) 0,[],0,n + n,0,true,[]⟩ := by
    simp [machine,step,State.doIoSubmit]
  have completes := run_completes entries (n + n) ⟨[],List.replicate (n + n) 0,[],0,n + n,0,true,[]⟩ rfl
  have reaps : (machine Nat entries).step ⟨[],[],List.replicate (n + n) 0,0,n + n,n + n,true,[]⟩ .waitEventfd =
      Option.some ⟨[],[],[],0,0,0,false,[⟨n + n,n + n⟩]⟩ := by
    have woken : wakeByCqe (n + n) = true := by
      simp only [wakeByCqe,cqeBits_eq,decide_eq_true_eq,Nat.mod_eq_of_lt few]
      omega
    have small : (n + n) % 4294967296 = n + n := Nat.mod_eq_of_lt (by omega)
    simp [machine,step,woken,State.reap,small,Nat.add_pos_left some]
  simp only [initial,List.nil_append,Nat.zero_add,List.replicate_append_replicate] at first second completes
  simp only [twoRounds,Machine.run_append,initial,first,second,Option.bind_some,Machine.run_single]
  rw [polls,Option.bind_some,completes,Option.bind_some]
  exact reaps

/-- Two full submission rings of operations that complete together overrun the buffer. -/
theorem two_rounds_overrun : ¬ ∀ (actions : List (Action Nat)) (s : State Nat),
    (machine Nat kEntryLength).run initial actions = some s → PeeksInBounds s := by
  intro claimed
  have within := claimed _ _ (run_twoRounds kEntryLength kEntryLength (Nat.le_refl _) (by decide) (by decide))
  have few := (within ⟨kEntryLength + kEntryLength,kEntryLength + kEntryLength⟩ (by simp)).1
  exact absurd few (by decide)

end TinyCoro.Engine
