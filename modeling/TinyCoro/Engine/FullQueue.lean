import TinyCoro.Library.Chain
import TinyCoro.Context.Worker
import TinyCoro.Comp.Contexts

/-! The wake-up loops on the worker thread of the only context whose coroutines
they wake. Nobody else pops from its queue, so a push into the full queue and a
write that the eventfd has no room for block for ever. -/
namespace TinyCoro.Engine
open Library Context

/-- The queue and the eventfd of a context: neither ever holds more than it can. -/
structure Inbox (Coro : Type) where
  taskQueue : List Coro
  efd : Nat
  capacity : taskQueue.length ≤ kQueCap
  counter : efd ≤ 2^64 - 2

variable {Coro : Type}

def Inbox.submitTask (w : Inbox Coro) (handle : Coro) : Option (Inbox Coro) :=
  if room : w.taskQueue.length < kQueCap then
    if unsaturated : w.efd + taskFlag ≤ 2^64 - 2 then
      some ⟨w.taskQueue ++ [handle],w.efd + taskFlag,by rw [List.length_append]; exact room,unsaturated⟩
    else none
  else none

/-- `event_base::resume_all_awaiters`. The fuel counts the iterations. -/
def resumeAllAwaiters (next : Addr → Option Addr) (awaitCoro : Addr → Coro) :
    Nat → Inbox Coro → Option Addr → Option (Inbox Coro)
  | 0, _, _ => none
  | _+1, w, none => some w
  | fuel+1, w, some cur => (w.submitTask (awaitCoro cur)).bind fun w => resumeAllAwaiters next awaitCoro fuel w (next cur)

/-- The loop of `wait_group::done`. -/
def drain (next : Addr → Option Addr) (awaitCoro : Addr → Coro) :
    Nat → Inbox Coro → Option Addr → Option (Inbox Coro)
  | 0, _, _ => none
  | _+1, w, none => some w
  | fuel+1, w, some head => (w.submitTask (awaitCoro head)).bind fun w => drain next awaitCoro fuel w (next head)

/-- `wait_group::done` with the counter and the list as it finds them. -/
def done (next : Addr → Option Addr) (awaitCoro : Addr → Coro) (fuel : Nat) (count : Int) (state : Option Addr)
    (w : Inbox Coro) : Option (Inbox Coro) :=
  if count = 1 then drain next awaitCoro fuel w state else some w

def handleCqeEntry (info : InfoPtr → IoInfo Coro) (w : Inbox Coro) (cqe : Completion) :
    Option ((InfoPtr → IoInfo Coro) × Inbox Coro) :=
  let data := info cqe.entry.userData
  let stored := Function.update info cqe.entry.userData { data with result := callback data.type data.data cqe.res }
  (w.submitTask data.handle).map fun w => (stored,w)

/-- The reaping loop of `poll_submit`. -/
def reapLoop (info : InfoPtr → IoInfo Coro) (w : Inbox Coro) : List Completion → Option ((InfoPtr → IoInfo Coro) × Inbox Coro)
  | [] => some (info,w)
  | cqe::rest => (handleCqeEntry info w cqe).bind fun (info,w) => reapLoop info w rest

def submitAll (w : Inbox Coro) : List Coro → Option (Inbox Coro)
  | [] => some w
  | handle::rest => (w.submitTask handle).bind fun w => submitAll w rest

def Inbox.Room (w : Inbox Coro) (n : Nat) : Prop :=
  w.taskQueue.length + n ≤ kQueCap ∧ w.efd + n * taskFlag ≤ 2^64 - 2

private theorem submitTask_isSome_iff (w : Inbox Coro) (handle : Coro) : (w.submitTask handle).isSome ↔ w.Room 1 := by
  rw [Inbox.Room,Nat.one_mul,Inbox.submitTask]
  by_cases room : w.taskQueue.length < kQueCap
  · by_cases unsaturated : w.efd + taskFlag ≤ 2^64 - 2
    · rw [dif_pos room,dif_pos unsaturated]
      exact iff_of_true rfl ⟨room,unsaturated⟩
    · rw [dif_pos room,dif_neg unsaturated]
      exact iff_of_false Bool.false_ne_true fun fits => unsaturated fits.2
  · rw [dif_neg room]
    exact iff_of_false Bool.false_ne_true fun fits => room fits.1

private theorem submitTask_lengths {w w' : Inbox Coro} {handle : Coro} (submitted : w.submitTask handle = some w') :
    w'.taskQueue.length = w.taskQueue.length + 1 ∧ w'.efd = w.efd + taskFlag := by
  rw [Inbox.submitTask] at submitted
  split at submitted
  next =>
    split at submitted
    next => rw [← Option.some.inj submitted]; exact ⟨List.length_append,rfl⟩
    next => contradiction
  next => contradiction

private theorem submitTask_room {w w' : Inbox Coro} {handle : Coro} (submitted : w.submitTask handle = some w') (n : Nat) :
    w'.Room n ↔ w.Room (n+1) := by
  obtain ⟨queue,efd⟩ := submitTask_lengths submitted
  rw [Inbox.Room,Inbox.Room,queue,efd,Nat.add_mul,Nat.one_mul,Nat.add_assoc,Nat.add_assoc,Nat.add_comm 1,
    Nat.add_comm taskFlag]

theorem Inbox.Room.fewer {w : Inbox Coro} {m n : Nat} (room : w.Room n) (fewer : m ≤ n) : w.Room m :=
  ⟨Nat.le_trans (Nat.add_le_add_left fewer _) room.1,
    Nat.le_trans (Nat.add_le_add_left (Nat.mul_le_mul_right _ fewer) _) room.2⟩

private theorem submitAll_isSome_iff (w : Inbox Coro) (handles : List Coro) : (submitAll w handles).isSome ↔ w.Room handles.length := by
  induction handles generalizing w with
  | nil =>
    refine iff_of_true rfl ⟨w.capacity,?_⟩
    rw [List.length_nil,Nat.zero_mul]
    exact w.counter
  | cons handle rest ih =>
    rw [submitAll,List.length_cons]
    cases submitted : w.submitTask handle with
    | none =>
      have full := (submitTask_isSome_iff w handle).not.mp (by simp [submitted])
      exact iff_of_false Bool.false_ne_true fun room => full (room.fewer (Nat.le_add_left ..))
    | some w' => rw [Option.bind_some,ih w',submitTask_room submitted]

private theorem resumeAllAwaiters_eq (next : Addr → Option Addr) (awaitCoro : Addr → Coro) (l : List Addr) (head : Option Addr)
    (chain : Chain next head l) (fuel : Nat) (enough : l.length < fuel) (w : Inbox Coro) :
    resumeAllAwaiters next awaitCoro fuel w head = submitAll w (l.map awaitCoro) := by
  induction l generalizing head fuel w with
  | nil =>
    obtain ⟨fuel,rfl⟩ := Nat.exists_eq_add_of_lt enough
    rw [Chain.nil_iff.mp chain]
    rfl
  | cons cur rest ih =>
    obtain ⟨rfl,tail⟩ := chain
    obtain ⟨fuel,rfl⟩ := Nat.exists_eq_add_of_lt enough
    rw [List.length_cons] at enough
    rw [List.map_cons,submitAll]
    cases submitted : w.submitTask (awaitCoro cur) with
    | none => simp only [resumeAllAwaiters,submitted,Option.bind_none]
    | some w' =>
      simp only [resumeAllAwaiters,submitted,Option.bind_some]
      exact ih _ tail _ (by simp only [List.length_cons]; omega) w'

private theorem resumeAllAwaiters_enough (next : Addr → Option Addr) (awaitCoro : Addr → Coro) (l : List Addr) (head : Option Addr)
    (chain : Chain next head l) (fuel : Nat) (w : Inbox Coro)
    (returns : (resumeAllAwaiters next awaitCoro fuel w head).isSome) : l.length < fuel := by
  induction l generalizing head fuel w with
  | nil =>
    cases fuel with
    | zero => contradiction
    | succ fuel => exact Nat.succ_pos fuel
  | cons cur rest ih =>
    obtain ⟨rfl,tail⟩ := chain
    cases fuel with
    | zero => contradiction
    | succ fuel =>
      cases submitted : w.submitTask (awaitCoro cur) with
      | none => simp [resumeAllAwaiters,submitted] at returns
      | some w' =>
        simp only [resumeAllAwaiters,submitted,Option.bind_some] at returns
        exact Nat.succ_lt_succ (ih _ tail fuel w' returns)

/-- The two loops over linked lists are one. -/
theorem drain_eq (next : Addr → Option Addr) (awaitCoro : Addr → Coro) (fuel : Nat) (w : Inbox Coro) (head : Option Addr) :
    drain next awaitCoro fuel w head = resumeAllAwaiters next awaitCoro fuel w head := by
  induction fuel generalizing w head with
  | zero => rfl
  | succ fuel ih => cases head <;> simp only [drain,resumeAllAwaiters,ih]

/-- The handle that the callback of a completion submits is that of its `io_info`,
whatever results the callbacks before it have stored. -/
theorem reapLoop_isSome (info : InfoPtr → IoInfo Coro) (w : Inbox Coro) (cqes : List Completion) :
    (reapLoop info w cqes).isSome ↔ (submitAll w (cqes.map fun cqe => (info cqe.entry.userData).handle)).isSome := by
  induction cqes generalizing info w with
  | nil => exact Iff.rfl
  | cons cqe rest ih =>
    rw [reapLoop,List.map_cons,submitAll,handleCqeEntry]
    cases submitted : w.submitTask (info cqe.entry.userData).handle with
    | none => exact Iff.rfl
    | some w' =>
      simp only [Option.map_some,Option.bind_some,ih]
      have same : ∀ p, (Function.update info cqe.entry.userData
          { info cqe.entry.userData with
            result := callback (info cqe.entry.userData).type (info cqe.entry.userData).data cqe.res } p).handle =
          (info p).handle := by
        intro p
        by_cases here : p = cqe.entry.userData
        · rw [here,Function.update_self]
        · rw [Function.update_of_ne here]
      simp only [same]

private theorem resumeAllAwaiters_returns_iff (w : Inbox Coro) (next : Addr → Option Addr) (awaitCoro : Addr → Coro) (l : List Addr)
    (head : Option Addr) (chain : Chain next head l) :
    (∃ fuel, (resumeAllAwaiters next awaitCoro fuel w head).isSome) ↔ w.Room l.length := by
  have all := submitAll_isSome_iff w (l.map awaitCoro)
  rw [List.length_map] at all
  rw [← all]
  constructor
  · rintro ⟨fuel,returns⟩
    rwa [← resumeAllAwaiters_eq next awaitCoro l head chain fuel
      (resumeAllAwaiters_enough next awaitCoro l head chain fuel w returns)]
  · intro returns
    refine ⟨l.length + 1,?_⟩
    rw [resumeAllAwaiters_eq next awaitCoro l head chain _ (Nat.lt_succ_self _)]
    exact returns

/-- The loops return exactly when the queue of the context has room for all woken
coroutines and the eventfd for their wake-ups. -/
theorem wakes_itself_iff (w : Inbox Coro) (next : Addr → Option Addr) (awaitCoro : Addr → Coro) (l : List Addr)
    (head : Option Addr) (chain : Chain next head l) (info : InfoPtr → IoInfo Coro) (cqes : List Completion) :
    ((∃ fuel, (resumeAllAwaiters next awaitCoro fuel w head).isSome) ↔ w.Room l.length) ∧
      ((∃ fuel, (done next awaitCoro fuel 1 head w).isSome) ↔ w.Room l.length) ∧
      ((reapLoop info w cqes).isSome ↔ w.Room cqes.length) := by
  have walks := resumeAllAwaiters_returns_iff w next awaitCoro l head chain
  refine ⟨walks,?_,?_⟩
  · simp only [done,if_true,drain_eq]
    exact walks
  · rw [reapLoop_isSome,submitAll_isSome_iff,List.length_map]

/-- A context with `n` handles in its queue, whose wake-ups it has read. -/
def woken (n : Nat) (few : n ≤ kQueCap) : Inbox Nat where
  taskQueue := List.replicate n 0
  efd := 0
  capacity := by rw [List.length_replicate]; exact few
  counter := Nat.zero_le _

/-- Two waiters of one event, woken by their own worker into an empty queue. -/
theorem two_waiters_woken : ∃ fuel, (resumeAllAwaiters (Function.update (fun _ => none) 0 (some 1)) (fun a => a) fuel
    (woken 0 (Nat.zero_le _)) (some 0)).isSome := by
  have chain : Chain (Function.update (fun _ => none) 0 (some 1)) (some 0) [0,1] := ⟨rfl,by simp,by simp⟩
  have iff := wakes_itself_iff (woken 0 (Nat.zero_le _)) _ (fun a => a) [0,1] (some 0) chain
    (fun _ => ⟨0,0,.nop,0⟩) []
  exact iff.1.mpr ⟨by decide,by decide⟩

/-- One waiter is woken by its own worker, whose queue is full. -/
theorem full_queue_blocks : ¬ ∀ (w : Inbox Nat) (next : Addr → Option Addr) (l : List Addr) (head : Option Addr),
    Chain next head l → ∃ fuel, (resumeAllAwaiters next (fun a => a) fuel w head).isSome := by
  intro claimed
  have chain : Chain (fun _ => none) (some 0) [0] := ⟨rfl,rfl⟩
  have returns := claimed (woken kQueCap (Nat.le_refl _)) _ [0] _ chain
  have room := ((resumeAllAwaiters_returns_iff (woken kQueCap (Nat.le_refl _)) _ (fun a => a) [0] _ chain).mp returns).1
  simp only [woken,List.length_replicate,List.length_singleton] at room
  exact Nat.not_succ_le_self kQueCap room

end TinyCoro.Engine
