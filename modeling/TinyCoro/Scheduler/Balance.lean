import TinyCoro.Scheduler.Tokens
import TinyCoro.Scheduler.PreLoop

/-! The dispatcher deals in turn over every interleaving: the contexts that concurrent
submits are given are those that as many consecutive calls would choose. -/
namespace TinyCoro.Scheduler
open Library TwoParties

inductive Deal (n : Nat)
  | chooses (i : Nat)
  | places (i : Fin n)

variable {n : Nat} {Coro Ext : Type}

def chosen (deals : List (Deal n)) : List Nat := deals.filterMap fun
  | .chooses i => some i
  | .places _ => none

def placed (deals : List (Deal n)) : List (Fin n) := deals.filterMap fun
  | .chooses _ => none
  | .places i => some i

/-- Between the `dispatch` that has chosen context `i` and the push. -/
def Submission.pending (i : Fin n) : Submission n Coro → Nat
  | .fetchOr k _ | .fetchAdd k _ _ | .push k _ => if k = i then 1 else 0
  | _ => 0

def State.pending [Fintype Ext] (s : State n Coro Ext) (i : Fin n) : Nat := ∑ u, (s.submits u).pending i

def deals (s : State n Coro Ext) : Action n Coro Ext → List (Deal n)
  | .proceed u =>
    match s.submits u with
    | .dispatch _ => if 0 < n then [.chooses (s.cur % n)] else []
    | .push i _ => [.places i]
    | _ => []
  | _ => []

/-- What has been dealt since the counter of the dispatcher was `cur`. -/
structure InTurn [Fintype Ext] (cur : Nat) (dealt : List (Deal n)) (s : State n Coro Ext) : Prop where
  sequential : chosen dealt = (⟨n,cur⟩ : PreLoop.Dispatcher).dispatches (chosen dealt).length
  fair : cur + (chosen dealt).length ≤ 2^64 → ∀ i < n,
    (chosen dealt).count i = (chosen dealt).length / n ∨ (chosen dealt).count i = ((chosen dealt).length + n - 1) / n
  arrives : ∀ i, (placed dealt).count i + s.pending i = (chosen dealt).count i.val
  even : cur + (chosen dealt).length ≤ 2^64 → (∀ u, s.submits u = .idle) → ∀ i k, (placed dealt).count i ≤ (placed dealt).count k + 1

section
variable {as bs : List (Deal n)} {i : Fin n}

@[simp] theorem chosen_append : chosen (as ++ bs) = chosen as ++ chosen bs := List.filterMap_append

@[simp] theorem placed_append : placed (as ++ bs) = placed as ++ placed bs := List.filterMap_append

@[simp] theorem chosen_nil : chosen ([] : List (Deal n)) = [] := rfl

@[simp] theorem placed_nil : placed ([] : List (Deal n)) = [] := rfl

@[simp] theorem chosen_chooses {k : Nat} : chosen ([.chooses k] : List (Deal n)) = [k] := rfl

@[simp] theorem placed_chooses {k : Nat} : placed ([.chooses k] : List (Deal n)) = [] := rfl

@[simp] theorem chosen_places : chosen [.places i] = [] := rfl

@[simp] theorem placed_places : placed [.places i] = [i] := rfl

end

private theorem dispatches_concat (d : PreLoop.Dispatcher) (calls : Nat) (fits : d.cur < 2^64) :
    d.dispatches (calls + 1) = d.dispatches calls ++ [(d.cur + calls) % 2^64 % d.ctxCnt] := by
  induction calls generalizing d with
  | zero =>
    rw [Nat.add_zero d.cur,Nat.mod_eq_of_lt fits]
    rfl
  | succ calls ih =>
    have next : d.dispatch.2.cur < 2^64 := Nat.mod_lt _ (by decide)
    have later : (d.dispatch.2.cur + calls) % 2^64 = (d.cur + (calls + 1)) % 2^64 := by
      simp only [PreLoop.Dispatcher.dispatch]
      omega
    rw [PreLoop.Dispatcher.dispatches,ih d.dispatch.2 next,later]
    rfl

variable [DecidableEq Coro] [DecidableEq Ext]

private theorem deals_of_crash {s : State n Coro Ext} {a : Action n Coro Ext} (alive : s.crashed = false)
    (moved : step s a = some { s with crashed := true }) : deals s a = [] := by
  have ends := congrArg (Option.map State.crashed) moved
  cases a with
  | proceed u =>
    cases here : s.submits u with
    | dispatch handle =>
      by_cases some : 0 < n
      · simp [step,act,proceed,alive,here,some,State.submitting] at ends
      · simp [deals,here,some]
    | push i handle => simp [step,act,proceed,alive,here,State.submitting,State.context] at ends
    | _ => simp only [deals,here]
  | _ => rfl

section
variable [Fintype Ext] {s s' : State n Coro Ext} {cur : Nat} {dealt : List (Deal n)}

omit [DecidableEq Coro] in
private theorem pending_submitting {u : Submitter n Ext} {p : Submission n Coro}
    (submits : s'.submits = Function.update s.submits u p) (i : Fin n) :
    s'.pending i + (s.submits u).pending i = s.pending i + p.pending i := by
  rw [State.pending,submits]
  exact sum_update (Submission.pending i) s.submits u p

structure Dealing (cur : Nat) (dealt : List (Deal n)) (s : State n Coro Ext) : Prop where
  fits : cur < 2^64
  tickets : s.cur = (cur + (chosen dealt).length) % 2^64
  sequential : chosen dealt = (⟨n,cur⟩ : PreLoop.Dispatcher).dispatches (chosen dealt).length
  arrives : ∀ i, (placed dealt).count i + s.pending i = (chosen dealt).count i.val

omit [DecidableEq Coro] [DecidableEq Ext] in
theorem Dealing.keep (dealing : Dealing cur dealt s) (same : s'.cur = s.cur) (pending : ∀ i, s'.pending i = s.pending i) :
    Dealing cur (dealt ++ []) s' := by
  rw [List.append_nil]
  exact ⟨dealing.fits,same.trans dealing.tickets,dealing.sequential,fun i => by rw [pending i]; exact dealing.arrives i⟩

omit [DecidableEq Coro] in
theorem Dealing.submitting (dealing : Dealing cur dealt s) {u : Submitter n Ext} {p q : Submission n Coro} (here : s.submits u = q)
    (submits : s'.submits = Function.update s.submits u p) (cur' : s'.cur = s.cur) (same : ∀ i, p.pending i = q.pending i) :
    Dealing cur (dealt ++ []) s' := by
  apply dealing.keep cur'
  intro i
  have total := pending_submitting submits i
  rw [here,same i] at total
  omega

omit [DecidableEq Coro] in
private theorem Dealing.chooses (dealing : Dealing cur dealt s) {u : Submitter n Ext} {k : Fin n} {handle : Coro}
    (here : s.submits u = .dispatch handle) (submits : s'.submits = Function.update s.submits u (.fetchOr k handle))
    (turn : k.val = s.cur % n) (draws : s'.cur = (s.cur + 1) % 2^64) : Dealing cur (dealt ++ [.chooses k.val]) s' := by
  refine ⟨dealing.fits,?_,?_,fun i => ?_⟩
  · rw [draws,dealing.tickets,chosen_append,chosen_chooses,List.length_append,List.length_singleton]
    omega
  · rw [chosen_append,chosen_chooses,List.length_append,List.length_singleton,
      dispatches_concat _ _ dealing.fits,← dealing.sequential,← dealing.tickets,turn]
  · have total := pending_submitting submits i
    have before := dealing.arrives i
    rw [here] at total
    simp only [Submission.pending] at total
    simp only [chosen_append,chosen_chooses,placed_append,placed_chooses,List.append_nil,
      List.count_append,List.count_singleton,beq_iff_eq,Fin.val_inj]
    omega

omit [DecidableEq Coro] in
theorem Dealing.places (dealing : Dealing cur dealt s) {u : Submitter n Ext} {k : Fin n} {handle : Coro}
    (here : s.submits u = .push k handle) (submits : s'.submits = Function.update s.submits u (.wakeUp k)) (same : s'.cur = s.cur) :
    Dealing cur (dealt ++ [.places k]) s' := by
  refine ⟨dealing.fits,?_,?_,fun i => ?_⟩
  · rw [same,dealing.tickets,chosen_append,chosen_places,List.append_nil]
  · rw [chosen_append,chosen_places,List.append_nil]
    exact dealing.sequential
  · have total := pending_submitting submits i
    have before := dealing.arrives i
    rw [here] at total
    simp only [Submission.pending] at total
    simp only [chosen_append,chosen_places,placed_append,placed_places,List.append_nil,List.count_append,List.count_singleton,beq_iff_eq]
    omega

theorem Dealing.step {a : Action n Coro Ext} (dealing : Dealing cur dealt s) (moved : step s a = some s') :
    Dealing cur (dealt ++ deals s a) s' := by
  obtain ⟨alive,effect⟩ := effect_step moved
  cases effect with
  | crash =>
    rw [deals_of_crash alive moved]
    exact dealing.keep rfl fun _ => rfl
  | spawn | assign | work | wait | fetchAnd | stops | subtracts | requestStop | deinit => exact dealing.keep rfl fun _ => rfl
  | notified i k | unnotified i k =>
    apply dealing.keep
    · simp [State.context]
    · simp [State.pending,State.context]
  | submit u handle may => exact dealing.submitting (idle_of_mayCall may) rfl rfl fun _ => rfl
  | resume u k handle may => exact dealing.submitting (idle_of_mayCall may) rfl rfl fun _ => rfl
  | load u handle here | fetchOr u k handle here | fetchAdd u k old handle here | written u k here | dropped u k here =>
    simp only [deals,here]
    exact dealing.submitting here rfl rfl fun _ => rfl
  | dispatch u handle k here turn =>
    have chooses : deals s (.proceed u) = [.chooses k.val] := by
      simp only [deals,here,if_pos k.pos,turn]
    rw [chooses]
    exact dealing.chooses here rfl turn rfl
  | push u k handle here =>
    have places : deals s (.proceed u) = [.places k] := by simp only [deals,here]
    rw [places]
    exact dealing.places here rfl rfl

omit [DecidableEq Coro] [DecidableEq Ext] in
private theorem fresh_dealing (fresh : Fresh s) (fits : s.cur < 2^64) : Dealing s.cur [] s := by
  obtain ⟨_,_,_,_,submits,_⟩ := fresh
  have none : ∀ i, s.pending i = 0 := fun i => by simp [State.pending,submits,Submission.pending]
  exact ⟨fits,(Nat.mod_eq_of_lt fits).symm,rfl,fun i => by simp [none i]⟩

omit [DecidableEq Coro] [DecidableEq Ext] in
/-- Before the counter wraps around the contexts are dealt to in turn. -/
theorem Dealing.count (dealing : Dealing cur dealt s) (early : cur + (chosen dealt).length ≤ 2^64) (i : Nat) :
    (chosen dealt).count i = RoundRobin.share n i cur (chosen dealt).length := by
  conv_lhs => rw [dealing.sequential,PreLoop.dispatches_eq _ _ early,List.count,List.countP_map]
  rw [RoundRobin.share]
  rfl

omit [DecidableEq Coro] [DecidableEq Ext] in
private theorem Dealing.inTurn (dealing : Dealing cur dealt s) : InTurn cur dealt s := by
  refine ⟨dealing.sequential,?_,dealing.arrives,?_⟩
  · intro early i bound
    rw [dealing.count early i]
    exact RoundRobin.share_fair bound cur _
  · intro early idle i k
    have none : ∀ j, s.pending j = 0 := fun j => by simp [State.pending,idle,Submission.pending]
    have first := dealing.arrives i
    have second := dealing.arrives k
    rw [none,dealing.count early] at first second
    have even := RoundRobin.share_even i.isLt k.isLt cur (chosen dealt).length
    omega

end

/-- Submits that race with each other, with the workers and with stop callbacks are dealt to
the contexts in turn, and the tasks arrive as dealt. -/
theorem dealt_in_turn [Fintype Ext] (actions : List (Action n Coro Ext)) (s s' : State n Coro Ext) (fresh : Fresh s) (fits : s.cur < 2^64)
    (ran : (machine n Coro Ext).run s actions = some s') : InTurn s.cur ((machine n Coro Ext).trace deals s actions) s' := by
  have dealing : Dealing s.cur ([] ++ (machine n Coro Ext).trace deals s actions) s' :=
    Machine.trace_invariant (fun _ _ _ _ before moved => before.step moved) actions [] s s' (fresh_dealing fresh fits) ran
  exact dealing.inTurn

def submitTwice (i : Fin 2) : List (Action 2 Nat Empty) :=
  List.replicate 4 Action.start ++ List.replicate 2 (Action.work i .step) ++ [Action.submit (.inl i) 7] ++
    List.replicate 6 (Action.proceed (.inl i)) ++ [Action.submit (.inl i) 8] ++ List.replicate 6 (Action.proceed (.inl i))

theorem submit_twice_in_turn : ∃ s : State 2 Nat Empty,
    (machine 2 Nat Empty).run (initial 2 Empty 1 fun i => if i = 0 then [5] else []) (submitTwice 0) = some s ∧
    ((s.ctxs 0).taskQueue,(s.ctxs 1).taskQueue) = ([8],[7]) ∧
    InTurn 1 ((machine 2 Nat Empty).trace deals (initial 2 Empty 1 fun i => if i = 0 then [5] else []) (submitTwice 0)) s := by
  have ran : ((machine 2 Nat Empty).run (initial 2 Empty 1 fun i => if i = 0 then [5] else []) (submitTwice 0)).map
      (fun s => ((s.ctxs 0).taskQueue,(s.ctxs 1).taskQueue)) = some ([8],[7]) := by decide
  obtain ⟨s,reached,queues⟩ := Option.map_eq_some_iff.mp ran
  exact ⟨s,reached,queues,dealt_in_turn _ _ s (initial_fresh _ _) (by decide) reached⟩

end TinyCoro.Scheduler
