import TinyCoro.Task.LifecycleInvariant

/-! A tree with a coroutine that does not outlive a suspension of its child is
run, every suspended handle coming back at once, until the engine asks a
destroyed frame whether it is done. -/
namespace TinyCoro.Task.Lifecycle
open Library Relation

def Leads : State → State → Prop := ReflTransGen fun s s' => ∃ a, step s a = some s'

theorem Leads.single {s s' : State} (a : Action) (moved : step s a = some s') : Leads s s' :=
  ReflTransGen.single ⟨a,moved⟩

theorem Leads.reachable {root : Coroutine} {s s' : State} (leads : Leads s s')
    (reachable : (machine root).Reachable s) : (machine root).Reachable s' := by
  induction leads with
  | refl => exact reachable
  | tail _ moved ih => exact .step ih trivial moved.choose_spec

structure Runs (s : State) (a popped : Handle) (code : Coroutine) : Prop where
  pc : s.pc = .running popped a
  body : s.body a = some code
  parked : s.parked = []
  queue : s.taskQueue = []
  known : a < s.fresh
  poppedKnown : popped < s.fresh
  temporaries : ∀ b ∈ s.temporaries a, b < s.fresh
  detached : ∀ b, s.state b = .detach → b = 0
  root : s.body 0 ≠ none
  born : 0 < s.fresh

structure Completed (s s' : State) (a popped last : Handle) (code : Coroutine) : Prop where
  pc : s'.pc = (s.continuation a).elim (.done last) (.running last)
  parked : s'.parked = []
  queue : s'.taskQueue = []
  fresh : s.fresh ≤ s'.fresh
  known : last < s'.fresh
  body : ∀ b < s.fresh, b ≠ a → s'.body b = s.body b
  continuation : ∀ b < s.fresh, s'.continuation b = s.continuation b
  temporaries : ∀ b < s.fresh, b ≠ a → s'.temporaries b = s.temporaries b
  detached : ∀ b, s'.state b = .detach → b = 0
  kept : ∀ b < s.fresh, b ∉ s.temporaries a → s'.allocated b = s.allocated b
  gone : ∀ b ∈ s.temporaries a, s'.allocated b = false
  steady : code.suspends = false → last = popped
  moved : code.suspends = true → last = a ∨ s'.allocated last = false
  lost : code.outlives = false ∨ popped ∈ s.temporaries a ∧ code.pending = false → s'.allocated last = false
  dead : s.allocated popped = false → s'.allocated last = false

/-- Either some frame is misused or the body completes. -/
def Ends (s : State) (a popped : Handle) (code : Coroutine) : Prop :=
  ∃ s', Leads s s' ∧ (s'.misuse = true ∨ ∃ last, Completed s s' a popped last code)

theorem Runs.moves {s : State} {a popped : Handle} {code : Coroutine} (runs : Runs s a popped code) :
    step s .step = some ((s.use a).advance popped a code) := by
  simp only [Lifecycle.step,runs.pc,runs.body]

section
variable {s : State} {a popped : Handle} {child rest : Coroutine}

private theorem update_unfinished {h : Handle} (unfinished : s.body h ≠ none) : Function.update s.body a (some rest) h ≠ none := by
  by_cases same : h = a
  · simp [same]
  · rwa [Function.update_of_ne same]

theorem Runs.coReturn (runs : Runs s a popped .coReturn) : Ends s a popped .coReturn := by
  refine ⟨_,.single .step runs.moves,.inr ⟨popped,?_⟩⟩
  obtain ⟨pc,body,parked,queue,known,poppedKnown,temporaries,detached,root,born⟩ := runs
  simp only [State.advance,State.use]
  have allocated := endTemporaries_allocated { s with misuse := s.misuse || !s.allocated a } (s.temporaries a)
  constructor
  all_goals simp only [endTemporaries_continuation,endTemporaries_fresh,endTemporaries_parked,
    endTemporaries_state,endTemporaries_taskQueue,allocated]
  case parked => exact parked
  case queue => exact queue
  case fresh => exact Nat.le_refl _
  case known => exact poppedKnown
  case body => exact fun b _ other => Function.update_of_ne other ..
  case continuation => simp
  case temporaries => exact fun b _ other => Function.update_of_ne other ..
  case detached => exact detached
  case kept => exact fun b _ outside => if_neg outside
  case gone => exact fun b member => if_pos member
  case steady => simp
  case moved => exact fun sleeps => Bool.noConfusion sleeps
  case lost => exact fun short => short.elim (fun short => Bool.noConfusion short) fun ended => if_pos ended.1
  case dead => exact fun dead => ite_eq_left_iff.mpr fun _ => dead

theorem Runs.semicolon (runs : Runs s a popped (.semicolon rest))
    (ih : ∀ s, Runs s a popped rest → Ends s a popped rest) : Ends s a popped (.semicolon rest) := by
  have first := runs.moves
  obtain ⟨pc,body,parked,queue,known,poppedKnown,temporaries,detached,root,born⟩ := runs
  generalize after : (s.use a).advance popped a (.semicolon rest) = t at first
  simp only [State.advance,State.use] at after
  have allocated : ∀ b, t.allocated b = if b ∈ s.temporaries a then false else s.allocated b := by
    subst after
    exact endTemporaries_allocated { s with misuse := s.misuse || !s.allocated a } (s.temporaries a)
  have next : Runs t a popped rest := by
    subst after
    constructor
    all_goals simp only [endTemporaries_fresh,endTemporaries_parked,endTemporaries_pc,
      endTemporaries_state,endTemporaries_taskQueue,Function.update_self]
    case pc => exact pc
    case parked => exact parked
    case queue => exact queue
    case known => exact known
    case poppedKnown => exact poppedKnown
    case temporaries => simp
    case detached => exact detached
    case root => exact update_unfinished root
    case born => exact born
  obtain ⟨s',leads,ends⟩ := ih t next
  refine ⟨s',ReflTransGen.trans (Leads.single .step first) leads,?_⟩
  rcases ends with misused | ⟨last,completed⟩
  · exact .inl misused
  have fresh : t.fresh = s.fresh := by simp [← after]
  have linked : t.continuation = s.continuation := by simp [← after]
  have emptied : t.temporaries a = [] := by simp [← after]
  refine .inr ⟨last,?_⟩
  constructor
  case pc => exact linked ▸ completed.pc
  case parked => exact completed.parked
  case queue => exact completed.queue
  case fresh => exact fresh ▸ completed.fresh
  case known => exact completed.known
  case body =>
    intro b old other
    rw [completed.body b (fresh ▸ old) other,← after]
    simp [other]
  case continuation => exact fun b old => linked ▸ completed.continuation b (fresh ▸ old)
  case temporaries =>
    intro b old other
    rw [completed.temporaries b (fresh ▸ old) other,← after]
    simp [other]
  case detached => exact completed.detached
  case kept =>
    intro b old outside
    rw [completed.kept b (fresh ▸ old) (by simp [emptied]),allocated,if_neg outside]
  case gone =>
    intro b member
    rw [completed.kept b (fresh ▸ temporaries b member) (by simp [emptied]),allocated,if_pos member]
  case steady => exact completed.steady
  case moved => exact completed.moved
  case lost =>
    intro short
    rcases short with short | ⟨member,_⟩
    · exact completed.lost (.inl short)
    · exact completed.dead ((allocated popped).trans (if_pos member))
  case dead =>
    intro dead
    exact completed.dead ((allocated popped).trans (ite_eq_left_iff.mpr fun _ => dead))

/-- While the root is unfinished `exec_one_task` returns without destroying anything. -/
theorem settles (pc : s.pc = .done popped) (allocated : s.allocated popped = true)
    (detached : ∀ b, s.state b = .detach → b = 0) (root : s.body 0 ≠ none) : Leads s { s with pc := .idle } := by
  have asked : step s .step = some { s with pc := if (s.body popped).isNone then .clean popped else .idle } := by
    simp only [step,pc,use_allocated allocated]
  by_cases ended : s.body popped = none
  · have normal : s.state popped ≠ .detach := fun same => root (detached popped same ▸ ended)
    simp only [ended,Option.isNone_none,if_true] at asked
    refine ReflTransGen.trans (Leads.single .step asked) (Leads.single .step ?_)
    have still : { s with pc := .clean popped }.use popped = { s with pc := .clean popped } := use_allocated allocated
    simp only [step,normal,if_false,still]
  · simp only [Option.isNone_iff_eq_none,ended,if_false] at asked
    exact Leads.single .step asked

/-- The parked handle is submitted and popped again. -/
theorem comes_back (pc : s.pc = .idle) (parked : s.parked = [a]) (queue : s.taskQueue = []) :
    Leads s { s with parked := [], pc := .running a a } := by
  have submitted : step s (.submit a) = some { s with parked := [], taskQueue := [a] } := by
    simp [step,parked,queue]
  have resumed : step { s with parked := [], taskQueue := [a] } .exec = some { s with parked := [], pc := .running a a } := by
    simp [step,pc,queue]
  exact ReflTransGen.trans (Leads.single _ submitted) (Leads.single _ resumed)

theorem Runs.suspend (runs : Runs s a popped (.suspend rest))
    (ih : ∀ s, Runs s a a rest → Ends s a a rest) : Ends s a popped (.suspend rest) := by
  have first := runs.moves
  obtain ⟨pc,body,parked,queue,known,poppedKnown,temporaries,detached,root,born⟩ := runs
  generalize after : (s.use a).advance popped a (.suspend rest) = t at first
  by_cases allocated : s.allocated popped = true
  case neg =>
    have second : step t .step = some { t.use popped with
        pc := if (t.body popped).isNone then .clean popped else .idle } := by
      simp [step,← after,State.advance]
    refine ⟨_,ReflTransGen.trans (Leads.single .step first) (Leads.single .step second),.inl ?_⟩
    simp [State.use,← after,State.advance,allocated]
  have stopped : t.pc = .done popped := by
    subst after
    rfl
  have second : Leads t { t with pc := .idle } := by
    apply settles stopped <;> subst after
    · exact allocated
    · exact detached
    · exact update_unfinished root
  have third : Leads { t with pc := .idle } { t with parked := [], pc := .running a a } :=
    comes_back rfl (by simp [← after,State.advance,State.use,parked]) (by simp [← after,State.advance,State.use,queue])
  have next : Runs { t with parked := [], pc := .running a a } a a rest := by
    subst after
    exact ⟨rfl,Function.update_self ..,rfl,queue,known,known,temporaries,detached,update_unfinished root,born⟩
  obtain ⟨s',leads,ends⟩ := ih _ next
  refine ⟨s',ReflTransGen.trans (Leads.single .step first) (second.trans (third.trans leads)),?_⟩
  rcases ends with misused | ⟨last,completed⟩
  · exact .inl misused
  refine .inr ⟨last,?_⟩
  subst after
  constructor
  case pc => exact completed.pc
  case parked => exact completed.parked
  case queue => exact completed.queue
  case fresh => exact completed.fresh
  case known => exact completed.known
  case body => exact fun b old other => (completed.body b old other).trans (Function.update_of_ne other ..)
  case continuation => exact completed.continuation
  case temporaries => exact completed.temporaries
  case detached => exact completed.detached
  case kept => exact completed.kept
  case gone => exact completed.gone
  case steady => exact fun awake => Bool.noConfusion awake
  case moved =>
    intro _
    cases sleeps : rest.suspends with
    | true => exact completed.moved sleeps
    | false => exact .inl (completed.steady sleeps)
  case lost => exact fun short => short.elim (fun short => completed.lost (.inl short)) fun ended => Bool.noConfusion ended.2
  case dead => exact fun dead => Bool.noConfusion (dead.symm.trans allocated)

/-- What the run of an awaited child leaves behind, seen from the awaiting frame. -/
structure Awaited (s u : State) (a popped middle : Handle) (child : Coroutine) : Prop where
  fresh : s.fresh < u.fresh
  body : ∀ b < s.fresh, b ≠ a → u.body b = s.body b
  continuation : ∀ b < s.fresh, u.continuation b = s.continuation b
  temporaries : ∀ b < s.fresh, b ≠ a → u.temporaries b = s.temporaries b
  added : u.temporaries a = s.temporaries a ++ [s.fresh]
  kept : ∀ b < s.fresh, u.allocated b = s.allocated b
  steady : child.suspends = false → middle = popped
  moved : child.suspends = true → middle = s.fresh ∨ u.allocated middle = false
  lost : child.outlives = false → u.allocated middle = false
  dead : s.allocated popped = false → u.allocated middle = false

theorem Completed.awaited {u : State} {middle : Handle} (known : a < s.fresh) (poppedKnown : popped < s.fresh)
    (completed : Completed ((s.use a).advance popped a (.coAwait child rest)) u s.fresh popped middle child) :
    Awaited s u a popped middle child := by
  have older : ∀ b < s.fresh, b ≠ s.fresh := fun b old => Nat.ne_of_lt old
  constructor
  case fresh => exact completed.fresh
  case body =>
    intro b old other
    rw [completed.body b (Nat.lt_succ_of_lt old) (older b old)]
    simp [State.advance,State.use,older b old,other]
  case continuation =>
    intro b old
    rw [completed.continuation b (Nat.lt_succ_of_lt old)]
    simp [State.advance,State.use,older b old]
  case temporaries =>
    intro b old other
    rw [completed.temporaries b (Nat.lt_succ_of_lt old) (older b old)]
    simp [State.advance,State.use,older b old,other]
  case added =>
    rw [completed.temporaries a (Nat.lt_succ_of_lt known) (older a known)]
    simp [State.advance,State.use,older a known]
  case kept =>
    intro b old
    rw [completed.kept b (Nat.lt_succ_of_lt old) (by simp [State.advance,State.use])]
    simp [State.advance,State.use,older b old]
  case steady => exact completed.steady
  case moved => exact completed.moved
  case lost => exact fun short => completed.lost (.inl short)
  case dead =>
    intro dead
    apply completed.dead
    simpa [State.advance,State.use,older popped poppedKnown] using dead

theorem Completed.coAwait {u v : State} {middle last : Handle} (known : a < s.fresh) (awaited : Awaited s u a popped middle child)
    (completed : Completed u v a middle last rest) : Completed s v a popped last (.coAwait child rest) := by
  have own : ∀ b, b ∈ u.temporaries a ↔ b ∈ s.temporaries a ∨ b = s.fresh := by simp [awaited.added]
  have older : ∀ b < s.fresh, b < u.fresh := fun b old => Nat.lt_trans old awaited.fresh
  -- the child that has suspended is gone with the full expression of its co_await
  have slept : child.suspends = true → rest.pending = false → v.allocated last = false := by
    intro sleeps awake
    rcases awaited.moved sleeps with same | gone
    · exact completed.lost (.inr ⟨(own middle).mpr (.inr same),awake⟩)
    · exact completed.dead gone
  constructor
  case pc => exact awaited.continuation a known ▸ completed.pc
  case parked => exact completed.parked
  case queue => exact completed.queue
  case fresh => exact Nat.le_trans (Nat.le_of_lt awaited.fresh) completed.fresh
  case known => exact completed.known
  case body => exact fun b old other => (completed.body b (older b old) other).trans (awaited.body b old other)
  case continuation => exact fun b old => (completed.continuation b (older b old)).trans (awaited.continuation b old)
  case temporaries =>
    exact fun b old other => (completed.temporaries b (older b old) other).trans (awaited.temporaries b old other)
  case detached => exact completed.detached
  case kept =>
    intro b old outside
    have outside : b ∉ u.temporaries a := fun member => ((own b).mp member).elim outside (Nat.ne_of_lt old)
    exact (completed.kept b (older b old) outside).trans (awaited.kept b old)
  case gone => exact fun b member => completed.gone b ((own b).mpr (.inl member))
  case steady =>
    intro awake
    simp only [Coroutine.suspends,Bool.or_eq_false_iff] at awake
    exact (completed.steady awake.2).trans (awaited.steady awake.1)
  case moved =>
    intro sleeps
    simp only [Coroutine.suspends,Bool.or_eq_true] at sleeps
    cases later : rest.suspends with
    | true => exact completed.moved later
    | false =>
      have same := completed.steady later
      rcases awaited.moved (sleeps.resolve_right (by simp [later])) with new | gone
      · exact .inr (completed.gone last ((own last).mpr (.inr (same.trans new))))
      · exact .inr (completed.dead gone)
  case lost =>
    intro short
    rcases short with short | ⟨member,awake⟩
    · simp only [Coroutine.outlives,Bool.and_eq_false_iff,Bool.or_eq_false_iff,Bool.not_eq_false'] at short
      rcases short with (short | short) | ⟨sleeps,awake⟩
      · exact completed.dead (awaited.lost short)
      · exact completed.lost (.inl short)
      · exact slept sleeps awake
    · cases sleeps : child.suspends with
      | true => exact slept sleeps awake
      | false =>
        have member : middle ∈ u.temporaries a := (own middle).mpr (.inl (awaited.steady sleeps ▸ member))
        exact completed.lost (.inr ⟨member,awake⟩)
  case dead => exact fun dead => completed.dead (awaited.dead dead)

theorem Runs.coAwait (runs : Runs s a popped (.coAwait child rest))
    (ihChild : ∀ s a popped, Runs s a popped child → Ends s a popped child)
    (ihRest : ∀ s popped, Runs s a popped rest → Ends s a popped rest) : Ends s a popped (.coAwait child rest) := by
  have first := runs.moves
  obtain ⟨pc,body,parked,queue,known,poppedKnown,temporaries,detached,root,born⟩ := runs
  have inner : Runs ((s.use a).advance popped a (.coAwait child rest)) s.fresh popped child := by
    have unborn : 0 ≠ s.fresh := Nat.ne_of_lt born
    refine ⟨rfl,Function.update_self ..,parked,queue,Nat.lt_succ_self _,Nat.lt_succ_of_lt poppedKnown,?_,?_,?_,Nat.succ_pos _⟩
    · simp [State.advance,State.use]
    · intro b
      by_cases new : b = s.fresh
      · simp [State.advance,State.use,new]
      · simpa [State.advance,State.use,new] using detached b
    · simpa only [State.advance,State.use,Function.update_of_ne unborn] using update_unfinished root
  obtain ⟨u,leads,ends⟩ := ihChild _ s.fresh popped inner
  have reached := ReflTransGen.trans (Leads.single .step first) leads
  rcases ends with misused | ⟨middle,completed⟩
  · exact ⟨u,reached,.inl misused⟩
  have awaited := completed.awaited known poppedKnown
  have resumed : u.body a = some rest := by
    rw [completed.body a (Nat.lt_succ_of_lt known) (Nat.ne_of_lt known)]
    simp [State.advance,State.use,Nat.ne_of_lt known]
  have next : Runs u a middle rest := by
    refine ⟨?_,resumed,completed.parked,completed.queue,Nat.lt_trans known awaited.fresh,completed.known,?_,
      completed.detached,?_,Nat.lt_trans born awaited.fresh⟩
    · simpa [State.advance,State.use] using completed.pc
    · intro b member
      rw [awaited.added,List.mem_append,List.mem_singleton] at member
      rcases member with member | rfl
      · exact Nat.lt_trans (temporaries b member) awaited.fresh
      · exact awaited.fresh
    · by_cases same : a = 0
      · simp [← same,resumed]
      · rw [awaited.body 0 born (Ne.symm same)]
        exact root
  obtain ⟨v,leads',ends⟩ := ihRest u middle next
  refine ⟨v,reached.trans leads',?_⟩
  rcases ends with misused | ⟨last,completed'⟩
  · exact .inl misused
  · exact .inr ⟨last,completed'.coAwait known awaited⟩

theorem Runs.ends (runs : Runs s a popped child) : Ends s a popped child := by
  induction child generalizing s a popped with
  | coReturn => exact runs.coReturn
  | coAwait child rest ihChild ihRest => exact runs.coAwait (fun _ _ _ => ihChild) fun _ _ => ihRest
  | suspend rest ih => exact runs.suspend fun _ => ih
  | semicolon rest ih => exact runs.semicolon fun _ => ih

end

private theorem not_outlives_misuse (root : Coroutine) (short : root.outlives = false) :
    ∃ s, (machine root).Reachable s ∧ s.misuse = true := by
  have popped : step (start root) .exec = some { start root with taskQueue := [], pc := .running 0 0 } := rfl
  have runs : Runs { start root with taskQueue := [], pc := .running 0 0 } 0 0 root := by
    constructor <;> simp [start]
  obtain ⟨s,leads,ends⟩ := runs.ends
  have started : (machine root).Reachable (start root) := .start rfl
  have reachable := Leads.reachable (ReflTransGen.trans (Leads.single .exec popped) leads) started
  rcases ends with misused | ⟨last,completed⟩
  · exact ⟨s,reachable,misused⟩
  have gone := completed.lost (.inl short)
  have asked : step s .step = some { s.use last with pc := if (s.body last).isNone then .clean last else .idle } := by
    simp only [step,completed.pc,start,Option.elim_none]
  exact ⟨_,Leads.reachable (Leads.single .step asked) reachable,by simp [State.use,gone]⟩

/-- Over every run the engine cleans up exactly when wherever a suspending
child is awaited the awaiting coroutine outlives it by a suspension of its own. -/
theorem cleansUp_iff_outlives (root : Coroutine) :
    (∀ s, (machine root).Reachable s → CleansUp s) ↔ root.outlives = true := by
  constructor
  · intro clean
    by_contra short
    obtain ⟨s,reachable,misused⟩ := not_outlives_misuse root (by simpa using short)
    simp [(clean s reachable).1] at misused
  · exact fun outlives s => outlives_cleansUp root outlives s

def awaitsSleeper : Coroutine := .coAwait (.suspend .coReturn) (.semicolon .coReturn)

theorem awaits_sleeper_misused : ¬ ∀ root s, (machine root).Reachable s → CleansUp s := by
  intro claimed
  have ran : ((machine awaitsSleeper).run (start awaitsSleeper)
      [.exec,.step,.step,.step,.submit 1,.exec,.step,.step,.step,.step]).map (·.misuse) = some true := by decide
  obtain ⟨s,reached,misused⟩ := Option.map_eq_some_iff.mp ran
  have reachable := Machine.run_reachable _ _ _ _ (.start rfl) reached
  simp [(claimed awaitsSleeper s reachable).1] at misused

end TinyCoro.Task.Lifecycle
