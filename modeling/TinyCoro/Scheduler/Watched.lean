import TinyCoro.Scheduler.Tokens

/-! What keeps a worker from sleeping for ever. A worker that has looked at its stop
flag, or at its idle conditions, goes to sleep only with work left, with a wake-up
in its eventfd, or with a thread about to write one. -/
namespace TinyCoro.Scheduler
open Library

/-- Where the worker comes only after it has seen its stop requested. -/
def seesStop {Coro : Type} : Context.Pc Coro → Bool
  | .emptyWaitWork | .ready | .returned => true
  | _ => false

/-- From the decision not to leave the loop to the read of the eventfd. -/
def goesOn {Coro : Type} : Context.Pc Coro → Bool
  | .stopNotRequested | .idleWaitWork | .notReady | .stopCb | .doIoSubmit | .ioSubmitted | .waitEventfd => true
  | _ => false

def polls {Coro : Type} : Context.Pc Coro → Bool
  | .doIoSubmit | .ioSubmitted | .waitEventfd => true
  | _ => false

def Busy {Coro : Type} (c : Context.State Coro) : Prop := c.taskQueue ≠ [] ∨ c.numWaitTask ≠ 0 ∨ c.emptyIo = false

/-- One context: `flagged` is its stop flag, `past` a callback that has cleared it,
`pending` a submit that has not yet written the eventfd, `notifying` a `notify_stop`
that has not. -/
structure Watched {Coro : Type} (c : Context.State Coro) (flagged past pending notifying : Prop) : Prop where
  counters : Context.Counters c
  nonneg : 0 ≤ c.numWaitTask
  seen : seesStop c.pc = true → c.stop = true
  stopped : c.stop = true → goesOn c.pc = true → Busy c ∨ 0 < c.efd ∨ notifying
  flagged : flagged → polls c.pc = true ∨ past → c.stop = true ∨ Busy c ∨ 0 < c.efd ∨ pending

section
variable {Coro : Type} [DecidableEq Coro] {c c' : Context.State Coro} {flagged past pending notifying : Prop}

omit [DecidableEq Coro] in
theorem Watched.rest (watched : Watched c flagged past pending notifying) (counters : Context.Counters c')
    (wait : c'.numWaitTask = c.numWaitTask) (seen : seesStop c'.pc = false) (goes : goesOn c'.pc = false) (now : ¬ past) :
    Watched c' flagged past pending notifying := by
  have silent : polls c'.pc = false := by
    cases pc : c'.pc <;> simp_all [goesOn,polls]
  refine ⟨counters,wait ▸ watched.nonneg,by simp [seen],by simp [goes],fun _ looks => ?_⟩
  rcases looks with polling | after
  · simp [silent] at polling
  · contradiction

omit [DecidableEq Coro] in
theorem Watched.goes (watched : Watched c flagged past pending notifying) (counters : Context.Counters c')
    (wait : c'.numWaitTask = c.numWaitTask) (stop : c'.stop = c.stop) (efd : c'.efd = c.efd) (busy : Busy c → Busy c')
    (seen : seesStop c'.pc = true → c.stop = true)
    (stopped : c.stop = true → goesOn c'.pc = true → goesOn c.pc = true ∨ Busy c')
    (polling : polls c'.pc = true → polls c.pc = true ∨ c.stop = true ∨ Busy c') (now : ¬ past) :
    Watched c' flagged past pending notifying := by
  refine ⟨counters,wait ▸ watched.nonneg,?_,?_,?_⟩
  · rw [stop]
    exact seen
  · rw [stop,efd]
    intro stops goes
    rcases stopped stops goes with before | work
    · exact (watched.stopped stops before).imp_left busy
    · exact .inl work
  · rw [stop,efd]
    intro flag looks
    rcases polling (looks.resolve_right now) with before | stops | work
    · exact (watched.flagged flag (.inl before)).imp_right fun rest => rest.imp_left busy
    · exact .inl stops
    · exact .inr (.inl work)

omit [DecidableEq Coro] in
private theorem busy_of_emptyIo (idle : ¬ (c.numWaitTask = 0 ∧ c.emptyIo = true)) : Busy c := by
  by_cases waits : c.numWaitTask = 0
  · exact .inr (.inr (by simpa using fun empty => idle ⟨waits,empty⟩))
  · exact .inr (.inl waits)

/-- The worker's own steps, except into and out of its callback. -/
theorem Watched.advance (watched : Watched c flagged past pending notifying) (moved : Context.advance c = some c')
    (outside : c.pc ≠ .stopCb) (now : ¬ past) : Watched c' flagged past pending notifying := by
  have counters := watched.counters.advance moved
  cases pc : c.pc with
  | running | returned | aborted => simp [Context.advance,pc] at moved
  | stopCb => contradiction
  | exec left =>
    cases left with
    | zero =>
      simp only [Context.advance,pc,Option.some.injEq] at moved
      subst moved
      exact watched.rest counters rfl rfl rfl now
    | succ left =>
      simp only [Context.advance,pc] at moved
      split at moved
      next => contradiction
      next =>
        cases moved
        exact watched.rest counters (Context.resume_numWaitTask ..) rfl rfl now
  | stopRequested =>
    simp only [Context.advance,pc,Option.some.injEq] at moved
    subst moved
    by_cases stop : c.stop = true
    · simp only [if_pos stop] at counters ⊢
      exact watched.goes counters rfl rfl rfl id (fun _ => stop) (by simp [goesOn]) (by simp [polls]) now
    · simp only [if_neg stop] at counters ⊢
      exact watched.goes counters rfl rfl rfl id (by simp [seesStop]) (by simp [stop]) (by simp [polls]) now
  | emptyWaitWork =>
    simp only [Context.advance,pc,Option.some.injEq] at moved
    subst moved
    by_cases idle : c.numWaitTask = 0 ∧ c.emptyIo = true
    · simp only [if_pos idle] at counters ⊢
      have seen := watched.seen (by rw [pc]; rfl)
      exact watched.goes counters rfl rfl rfl id (fun _ => seen) (by simp [goesOn]) (by simp [polls]) now
    · simp only [if_neg idle] at counters ⊢
      have work := busy_of_emptyIo idle
      exact watched.goes counters rfl rfl rfl id (by simp [seesStop]) (fun _ _ => .inr work) (by simp [polls]) now
  | ready =>
    simp only [Context.advance,pc,Option.some.injEq] at moved
    subst moved
    have seen := watched.seen (by rw [pc]; rfl)
    by_cases empty : c.taskQueue = []
    · simp only [if_pos empty] at counters ⊢
      exact watched.goes counters rfl rfl rfl id (fun _ => seen) (by simp [goesOn]) (by simp [polls]) now
    · simp only [if_neg empty] at counters ⊢
      exact watched.rest counters rfl rfl rfl now
  | stopNotRequested =>
    simp only [Context.advance,pc,Option.some.injEq] at moved
    subst moved
    have before : goesOn c.pc = true := by rw [pc]; rfl
    by_cases stop : c.stop = true
    · simp only [if_pos stop] at counters ⊢
      exact watched.goes counters rfl rfl rfl id (by simp [seesStop]) (fun _ _ => .inl before) (fun _ => .inr (.inl stop)) now
    · simp only [if_neg stop] at counters ⊢
      exact watched.goes counters rfl rfl rfl id (by simp [seesStop]) (fun _ _ => .inl before) (by simp [polls]) now
  | idleWaitWork =>
    simp only [Context.advance,pc,Option.some.injEq] at moved
    subst moved
    have before : goesOn c.pc = true := by rw [pc]; rfl
    by_cases idle : c.numWaitTask = 0 ∧ c.emptyIo = true
    · simp only [if_pos idle] at counters ⊢
      exact watched.goes counters rfl rfl rfl id (by simp [seesStop]) (fun _ _ => .inl before) (by simp [polls]) now
    · simp only [if_neg idle] at counters ⊢
      have work := busy_of_emptyIo idle
      exact watched.goes counters rfl rfl rfl id (by simp [seesStop]) (fun _ _ => .inl before) (fun _ => .inr (.inr work)) now
  | notReady =>
    simp only [Context.advance,pc,Option.some.injEq] at moved
    subst moved
    have before : goesOn c.pc = true := by rw [pc]; rfl
    by_cases empty : c.taskQueue = []
    · simp only [if_pos empty] at counters ⊢
      exact watched.goes counters rfl rfl rfl id (by simp [seesStop]) (fun _ _ => .inl before) (by simp [polls]) now
    · simp only [if_neg empty] at counters ⊢
      exact watched.goes counters rfl rfl rfl id (by simp [seesStop]) (fun _ _ => .inl before) (fun _ => .inr (.inr (.inl empty))) now
  | doIoSubmit =>
    simp only [Context.advance,pc] at moved
    split at moved
    next => contradiction
    next =>
      cases moved
      refine watched.goes counters rfl rfl rfl id (by simp [seesStop]) (fun _ _ => .inl ?_) (fun _ => .inl ?_) now
      all_goals rw [pc]; rfl
  | ioSubmitted =>
    simp only [Context.advance,pc,Option.some.injEq] at moved
    subst moved
    refine watched.goes counters rfl rfl rfl ?_ (by simp [seesStop]) (fun _ _ => .inl ?_) (fun _ => .inl ?_) now
    · have wait := watched.counters.wait
      have running := watched.counters.running
      refine Or.imp_right (Or.imp_right fun some => ?_)
      simp only [Context.State.emptyIo,decide_eq_false_iff_not] at some ⊢
      omega
    all_goals rw [pc]; rfl
  | _ =>
    simp only [Context.advance,pc] at moved
    repeat' split at moved
    all_goals cases moved
    all_goals exact watched.rest counters rfl rfl rfl now

/-- The steps of a worker and of the kernel that change its context. -/
def isWork {Coro : Type} : Context.Action Coro → Bool
  | .accept _ | .submitSelf _ | .io _ _ _ | .coAwait _ | .suspend | .post _ _ _ _ => true
  | _ => false

omit [DecidableEq Coro] in
theorem Watched.keeps (watched : Watched c flagged past pending notifying) (counters : Context.Counters c')
    (wait : c'.numWaitTask = c.numWaitTask) (stop : c'.stop = c.stop) (efd : c.efd ≤ c'.efd) (busy : Busy c → Busy c')
    (seen : seesStop c'.pc = true → seesStop c.pc = true) (goes : goesOn c'.pc = true → goesOn c.pc = true)
    (polling : polls c'.pc = true → polls c.pc = true) : Watched c' flagged past pending notifying := by
  refine ⟨counters,wait ▸ watched.nonneg,?_,?_,?_⟩
  · rw [stop]
    exact fun here => watched.seen (seen here)
  · rw [stop]
    intro stops here
    rcases watched.stopped stops (goes here) with work | written | note
    · exact .inl (busy work)
    · exact .inr (.inl (Nat.lt_of_lt_of_le written efd))
    · exact .inr (.inr note)
  · rw [stop]
    intro flag looks
    rcases watched.flagged flag (looks.imp_left polling) with stops | work | written | owed
    · exact .inl stops
    · exact .inr (.inl (busy work))
    · exact .inr (.inr (.inl (Nat.lt_of_lt_of_le written efd)))
    · exact .inr (.inr (.inr owed))

theorem Watched.others (watched : Watched c flagged past pending notifying) {a : Context.Action Coro}
    (moved : Context.step c a = some c') (work : isWork a = true) :
    Watched c' flagged past pending notifying := by
  have counters := watched.counters.step moved
  cases a with
  | accept count =>
    simp only [Context.step] at moved
    split at moved
    next pc =>
      simp only [Option.ite_none_right_eq_some,Option.some.injEq] at moved
      obtain ⟨_,rfl⟩ := moved
      exact watched.keeps counters rfl rfl (Nat.le_refl _) id (by simp [seesStop]) (fun _ => by rw [pc]; rfl) (by rw [pc]; exact id)
    next => contradiction
  | submitSelf t =>
    simp only [Context.step] at moved
    split at moved
    next left handle pc =>
      cases moved
      exact watched.keeps counters rfl rfl (Nat.le_refl _) (Or.imp_left fun _ => by simp) (by simp [seesStop]) (by simp [goesOn])
        (by simp [polls])
    next => contradiction
  | io type data ptr =>
    simp only [Context.step] at moved
    split at moved
    next left handle pc =>
      simp only [Option.ite_none_right_eq_some,Option.some.injEq] at moved
      obtain ⟨_,rfl⟩ := moved
      have wait := watched.counters.wait
      refine watched.keeps counters rfl rfl (Nat.le_refl _) (fun _ => ?_) id id id
      refine .inr (.inr ?_)
      simp only [Context.State.emptyIo,decide_eq_false_iff_not]
      omega
    next => contradiction
  | coAwait ptr =>
    simp only [Context.step] at moved
    split at moved
    next left handle pc =>
      simp only [Option.ite_none_right_eq_some,Option.some.injEq] at moved
      obtain ⟨_,rfl⟩ := moved
      exact watched.keeps counters rfl rfl (Nat.le_refl _) id (by simp [seesStop]) (by simp [goesOn]) (by simp [polls])
    next => contradiction
  | suspend =>
    simp only [Context.step] at moved
    split at moved
    next left handle pc =>
      cases moved
      exact watched.keeps counters rfl rfl (Nat.le_refl _) id (by simp [seesStop]) (by simp [goesOn]) (by simp [polls])
    next => contradiction
  | post before after entry res =>
    simp only [Context.step,Option.ite_none_right_eq_some,Option.some.injEq] at moved
    obtain ⟨_,rfl⟩ := moved
    exact watched.keeps counters rfl rfl (Nat.le_succ _) id id id id
  | _ => contradiction

omit [DecidableEq Coro] in
theorem Watched.pushed (watched : Watched c flagged past pending notifying) (handle : Coro) (flagged' past' pending' notifying' : Prop) :
    Watched { c with taskQueue := c.taskQueue ++ [handle] } flagged' past' pending' notifying' := by
  have busy : Busy { c with taskQueue := c.taskQueue ++ [handle] } := .inl (by simp)
  exact ⟨{ watched.counters with },watched.nonneg,watched.seen,fun _ _ => .inl busy,fun _ _ => .inr (.inl busy)⟩

omit [DecidableEq Coro] in
theorem Watched.written (watched : Watched c flagged past pending notifying) {num : Nat} (positive : 0 < num)
    (flagged' past' pending' notifying' : Prop) : Watched (c.writeEventfd num) flagged' past' pending' notifying' := by
  have efd : 0 < (c.writeEventfd num).efd := Nat.add_pos_right _ positive
  exact ⟨{ watched.counters with },watched.nonneg,watched.seen,fun _ _ => .inr (.inl efd),fun _ _ => .inr (.inr (.inl efd))⟩

omit [DecidableEq Coro] in
theorem Watched.requested (watched : Watched c flagged past pending notifying) (flagged' past' pending' notifying' : Prop)
    (note : notifying') : Watched { c with stop := true } flagged' past' pending' notifying' :=
  ⟨{ watched.counters with },watched.nonneg,fun _ => rfl,fun _ _ => .inr (.inr note),fun _ _ => .inl rfl⟩

omit [DecidableEq Coro] in
theorem Watched.left (watched : Watched c flagged past pending notifying) (gone : c.pc = .returned)
    (flagged' pending' notifying' : Prop) {past' : Prop} (now : ¬ past') : Watched c flagged' past' pending' notifying' := by
  refine ⟨watched.counters,watched.nonneg,watched.seen,?_,?_⟩
  · intro _ going
    rw [gone] at going
    contradiction
  · intro _ polling
    rw [gone] at polling
    exact absurd (polling.resolve_left (by simp [polls])) now

omit [DecidableEq Coro] in
theorem Watched.mono (watched : Watched c flagged past pending notifying) {flagged' past' pending' notifying' : Prop}
    (flag : flagged' → polls c.pc = true ∨ past' → flagged ∧ (polls c.pc = true ∨ past) ∨ pending')
    (pend : pending → pending') (note : notifying → notifying') : Watched c flagged' past' pending' notifying' := by
  refine ⟨watched.counters,watched.nonneg,watched.seen,?_,?_⟩
  · intro stop going
    exact (watched.stopped stop going).imp_right (.imp_right note)
  · intro flagged' polling
    rcases flag flagged' polling with before | pending'
    · exact (watched.flagged before.1 before.2).imp_right (.imp_right (.imp_right pend))
    · exact .inr (.inr (.inr pending'))

omit [DecidableEq Coro] in
theorem Watched.callbackEnds (watched : Watched c flagged True pending notifying) (within : c.pc = .stopCb) :
    Watched { c with pc := .doIoSubmit } flagged False pending notifying := by
  obtain ⟨counters,nonneg,seen,stopped,flag⟩ := watched
  have wait := counters.queued (by simp [within])
  refine ⟨?_,nonneg,by simp [seesStop],?_,?_⟩
  · exact counters.keep rfl rfl rfl rfl rfl (by rw [within]; rfl) (by simp [within]) rfl (by simp [Context.Pc.batch])
  · exact fun stop _ => stopped stop (by rw [within]; rfl)
  · exact fun flagged _ => flag flagged (.inr trivial)

end
end TinyCoro.Scheduler
