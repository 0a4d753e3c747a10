import TinyCoro.Library.Machine

/-! The spin lock, one access of `lock_` per step, for any number of threads of
which only a holder calls `unlock`. -/
namespace TinyCoro.SpinLock
open Library

/-- Where a thread is: in `lock` at its exchange or in the loop that waits for the
release, in `try_lock` at its load or its exchange, or past a successful call. -/
inductive Pc
  | idle
  | exchange
  | spin
  | tryLoad
  | tryExchange
  | holding
  deriving DecidableEq

structure State (Thread : Type*) where
  lock_ : Bool
  pc : Thread → Pc

inductive Action (Thread : Type*)
  | lock (t : Thread)
  | tryLock (t : Thread)
  | unlock (t : Thread)
  | step (t : Thread)

variable {Thread : Type*} [DecidableEq Thread]

def State.goto (s : State Thread) (t : Thread) (p : Pc) : State Thread := { s with pc := Function.update s.pc t p }

def advance (s : State Thread) (t : Thread) : Option (State Thread) :=
  match s.pc t with
  | .idle | .holding => none
  | .exchange => some { s.goto t (if s.lock_ then .spin else .holding) with lock_ := true }
  | .spin => some (s.goto t (if s.lock_ then .spin else .exchange))
  | .tryLoad => some (s.goto t (if s.lock_ then .idle else .tryExchange))
  | .tryExchange => some { s.goto t (if s.lock_ then .idle else .holding) with lock_ := true }

def step (s : State Thread) : Action Thread → Option (State Thread)
  | .lock t => if s.pc t = .idle then some (s.goto t .exchange) else none
  | .tryLock t => if s.pc t = .idle then some (s.goto t .tryLoad) else none
  | .unlock t => if s.pc t = .holding then some { s.goto t .idle with lock_ := false } else none
  | .step t => advance s t

def Fresh (s : State Thread) : Prop := s.lock_ = false ∧ ∀ t, s.pc t = .idle

def machine (Thread : Type*) [DecidableEq Thread] : Machine (State Thread) (Action Thread) := ⟨Fresh,step⟩

/-- `lock_` is set while one thread holds the lock, and at no other time. -/
structure Exclusive (s : State Thread) : Prop where
  held : s.lock_ = true ↔ ∃ t, s.pc t = .holding
  unique : ∀ t u, s.pc t = .holding → s.pc u = .holding → t = u

section
variable {s s' : State Thread}

theorem Exclusive.goto (exclusive : Exclusive s) {t : Thread} {p : Pc} (without : s.pc t ≠ .holding) (still : p ≠ .holding) :
    Exclusive (s.goto t p) := by
  have same : ∀ u, (s.goto t p).pc u = .holding ↔ s.pc u = .holding := by
    intro u
    by_cases here : u = t
    · subst here
      simp [State.goto,still,without]
    · simp [State.goto,Function.update_of_ne here]
  constructor
  · simp only [same]
    exact exclusive.held
  · simp only [same]
    exact exclusive.unique

/-- An exchange takes a lock that nobody holds, or leaves a held one as it is. -/
theorem Exclusive.exchange (exclusive : Exclusive s) {t : Thread} {p : Pc} (without : s.pc t ≠ .holding) (still : p ≠ .holding) :
    Exclusive { s.goto t (if s.lock_ then p else .holding) with lock_ := true } := by
  cases locked : s.lock_ with
  | true =>
    have moved := exclusive.goto without still
    rw [if_pos rfl]
    exact ⟨by simpa only [State.goto,locked] using moved.held,moved.unique⟩
  | false =>
    have nobody : ∀ u, s.pc u ≠ .holding := by
      intro u holds
      rw [exclusive.held.mpr ⟨u,holds⟩] at locked
      contradiction
    have only : ∀ u, (s.goto t .holding).pc u = .holding → u = t := by
      intro u holds
      by_contra other
      simp only [State.goto,Function.update_of_ne other] at holds
      exact nobody u holds
    rw [if_neg Bool.false_ne_true]
    refine ⟨⟨fun _ => ⟨t,by simp [State.goto]⟩,fun _ => rfl⟩,?_⟩
    intro u v first second
    rw [only u first,only v second]

theorem Exclusive.unlock (exclusive : Exclusive s) {t : Thread} (holds : s.pc t = .holding) :
    Exclusive { s.goto t .idle with lock_ := false } := by
  have nobody : ∀ u, (s.goto t .idle).pc u ≠ .holding := by
    intro u
    by_cases here : u = t
    · subst here
      simp [State.goto]
    · simp only [State.goto,Function.update_of_ne here]
      exact fun other => here (exclusive.unique u t other holds)
  refine ⟨⟨fun locked => by simp at locked,?_⟩,fun u v first => absurd first (nobody u)⟩
  rintro ⟨u,other⟩
  exact absurd other (nobody u)

theorem Exclusive.step {a : Action Thread} (exclusive : Exclusive s) (moved : step s a = some s') : Exclusive s' := by
  cases a with
  | lock t | tryLock t =>
    simp only [SpinLock.step] at moved
    split at moved
    next idle =>
      cases moved
      exact exclusive.goto (by simp [idle]) (by simp)
    next => contradiction
  | unlock t =>
    simp only [SpinLock.step] at moved
    split at moved
    next holds =>
      cases moved
      exact exclusive.unlock holds
    next => contradiction
  | step t =>
    simp only [SpinLock.step,advance] at moved
    cases pc : s.pc t with
    | idle | holding => simp [pc] at moved
    | exchange =>
      simp only [pc,Option.some.injEq] at moved
      exact moved ▸ exclusive.exchange (by simp [pc]) (by simp)
    | tryExchange =>
      simp only [pc,Option.some.injEq] at moved
      exact moved ▸ exclusive.exchange (by simp [pc]) (by simp)
    | spin =>
      simp only [pc,Option.some.injEq] at moved
      exact moved ▸ exclusive.goto (by simp [pc]) (by split <;> simp)
    | tryLoad =>
      simp only [pc,Option.some.injEq] at moved
      exact moved ▸ exclusive.goto (by simp [pc]) (by split <;> simp)

end

omit [DecidableEq Thread] in
private theorem fresh_exclusive (s : State Thread) (fresh : Fresh s) : Exclusive s := by
  obtain ⟨free,idle⟩ := fresh
  constructor <;> simp [free,idle]

theorem reachable_exclusive (s : State Thread) (reachable : (machine Thread).Reachable s) : Exclusive s :=
  reachable.invariant fresh_exclusive fun _ _ _ exclusive _ moved => exclusive.step moved

/-- How a call ends: `lock` holds the lock and `try_lock` gives up only against a
holder, and whoever accesses a free lock gets on: a spinning thread has it after two
more accesses of its own. -/
structure Grants (s : State Thread) : Prop where
  exclusive : Exclusive s
  refused : ∀ t s', s.pc t ≠ .holding → step s (.step t) = some s' → s'.pc t = .idle → ∃ u, u ≠ t ∧ s.pc u = .holding
  waits : ∀ t s', s.pc t ≠ .holding → step s (.step t) = some s' → s'.pc t = .spin → ∃ u, u ≠ t ∧ s.pc u = .holding
  acquires : ∀ t, (∀ u, s.pc u ≠ .holding) → s.pc t ≠ .idle →
    ∃ k ≤ 2, ((machine Thread).run s (List.replicate k (.step t))).map (fun s' => s'.pc t) = some .holding

/-- The lock excludes, fails only against a holder, and is had as soon as nobody holds it. -/
theorem spin_lock_grants (s : State Thread) (reachable : (machine Thread).Reachable s) : Grants s := by
  have exclusive := reachable_exclusive s reachable
  have another : ∀ t, s.pc t ≠ .holding → s.lock_ = true → ∃ u, u ≠ t ∧ s.pc u = .holding := by
    intro t without locked
    obtain ⟨u,holds⟩ := exclusive.held.mp locked
    exact ⟨u,fun same => without (same ▸ holds),holds⟩
  refine ⟨exclusive,?_,?_,?_⟩
  · intro t s' without moved refused
    apply another t without
    by_contra free
    cases pc : s.pc t <;> simp [step,advance,pc,free] at moved <;> subst moved <;> simp [State.goto] at refused
  · intro t s' without moved waits
    apply another t without
    by_contra free
    cases pc : s.pc t <;> simp [step,advance,pc,free] at moved <;> subst moved <;> simp [State.goto] at waits
  · intro t nobody inside
    have free : s.lock_ = false := by
      by_contra locked
      obtain ⟨u,holds⟩ := exclusive.held.mp (by simpa using locked)
      exact nobody u holds
    cases pc : s.pc t with
    | idle => exact absurd pc inside
    | holding => exact absurd pc (nobody t)
    | exchange => exact ⟨1,by omega,by simp [Machine.run,machine,step,advance,pc,free,State.goto]⟩
    | tryExchange => exact ⟨1,by omega,by simp [Machine.run,machine,step,advance,pc,free,State.goto]⟩
    | spin => exact ⟨2,by omega,by simp [List.replicate,Machine.run,machine,step,advance,pc,free,State.goto]⟩
    | tryLoad => exact ⟨2,by omega,by simp [List.replicate,Machine.run,machine,step,advance,pc,free,State.goto]⟩

/-- The second thread spins against the first. -/
def contended : List (Action Bool) := [.lock false,.step false,.lock true,.step true]

theorem contended_grants : ∃ s : State Bool,
    (machine Bool).run ⟨false,fun _ => .idle⟩ contended = some s ∧ s.pc true = .spin ∧ Grants s := by
  have ran : ((machine Bool).run ⟨false,fun _ => .idle⟩ contended).map (fun s => s.pc true) = some .spin := by decide
  obtain ⟨s,reached,spins⟩ := Option.map_eq_some_iff.mp ran
  have reachable := (machine Bool).run_reachable contended _ s (.start ⟨rfl,fun _ => rfl⟩) reached
  exact ⟨s,reached,spins,spin_lock_grants s reachable⟩

end TinyCoro.SpinLock
