import TinyCoro.Task.Ownership

/-! Each frame has one owner or is on its way to the worker that destroys it, and
none is used after its end. -/
namespace TinyCoro.Task.Ownership
open Library

/-- Where a handle in flight is. At `finishing` its coroutine has ended and the worker
is about to clean it. -/
inductive Place (Worker : Type)
  | idle
  | queued (w : Worker)
  | awaiting (w : Worker)
  | running (w : Worker)
  | finishing (w : Worker)

structure Tracked {Var Worker : Type} (s : State Var Worker) (place : Handle → Place Worker) : Prop where
  unique : UniqueOwner s.coroutine
  owned : ∀ v h, s.coroutine v = some h → s.allocated h = true ∧ s.state h = .normal
  created : ∀ h, s.allocated h = true → h < s.fresh
  queued : ∀ w h, h ∈ s.taskQueue w ↔ place h = .queued w
  nodup : ∀ w, (s.taskQueue w).Nodup
  awaiting : ∀ h w, s.awaiting h = some w ↔ place h = .awaiting w
  running : ∀ w h, s.pc w = .running h ↔ place h = .running w
  finishing : ∀ w h, place h = .finishing w → (s.pc w = .done h ∨ s.pc w = .clean h) ∧ s.point h = .final
  stays : ∀ w h, s.pc w = .done h → place h = .finishing w ∨ s.point h = .suspended ∧ (place h = .awaiting w ∨ place h = .queued w)
  cleaning : ∀ w h, s.pc w = .clean h → place h = .finishing w
  alive : ∀ h, place h ≠ .idle → s.allocated h = true
  waits : ∀ w h, place h = .queued w ∨ place h = .awaiting w → s.point h = .suspended
  runs : ∀ h, s.point h = .running ↔ ∃ w, place h = .running w
  counts : ∀ h, s.destructions h = if h < s.fresh ∧ s.allocated h = false then 1 else 0
  safe : s.misuse = false

variable {Var Worker : Type}

theorem fresh_tracked (s : State Var Worker) (fresh : Fresh s) : Tracked s fun _ => .idle := by
  obtain ⟨coroutine,allocated,point,none,queue,awaiting,pc,destructions,misuse⟩ := fresh
  constructor <;> simp [*,UniqueOwner]

section
variable {s s' : State Var Worker} {place : Handle → Place Worker} {h : Handle} {v : Var} {w : Worker}

private theorem Tracked.inFlight_iff (tracked : Tracked s place) : InFlight s h ↔ place h ≠ .idle := by
  constructor
  · rintro (⟨w,member⟩ | waits | ⟨w,held⟩)
    · simp [(tracked.queued w h).mp member]
    · obtain ⟨w,here⟩ := Option.isSome_iff_exists.mp waits
      simp [(tracked.awaiting h w).mp here]
    · cases pc : s.pc w with
      | idle => simp [pc,Pc.coro] at held
      | running coro =>
        simp only [pc,Pc.coro,Option.some.injEq] at held
        subst held
        simp [(tracked.running w coro).mp pc]
      | done coro =>
        simp only [pc,Pc.coro,Option.some.injEq] at held
        subst held
        rcases tracked.stays w coro pc with here | ⟨_,here | here⟩ <;> simp [here]
      | clean coro =>
        simp only [pc,Pc.coro,Option.some.injEq] at held
        subst held
        simp [tracked.cleaning w coro pc]
  · intro flies
    cases here : place h with
    | idle => exact absurd here flies
    | queued w => exact .inl ⟨w,(tracked.queued w h).mpr here⟩
    | awaiting w => exact .inr (.inl (by simp [(tracked.awaiting h w).mpr here]))
    | running w => exact .inr (.inr ⟨w,by simp [(tracked.running w h).mpr here,Pc.coro]⟩)
    | finishing w =>
      rcases (tracked.finishing w h here).1 with pc | pc
      · exact .inr (.inr ⟨w,by simp [pc,Pc.coro]⟩)
      · exact .inr (.inr ⟨w,by simp [pc,Pc.coro]⟩)

private theorem Tracked.owners (tracked : Tracked s place) {coroutine : Var → Option Handle} {state : Handle → CoroState}
    (unique : UniqueOwner coroutine) (owned : ∀ v h, coroutine v = some h → s.allocated h = true ∧ state h = .normal) :
    Tracked { s with coroutine := coroutine, state := state } place :=
  { tracked with unique := unique, owned := owned }

private theorem query_of_alive (allocated : s.allocated h = true) (still : s.point h ≠ .running) : s.query h = s := by
  simp [State.query,State.misused,allocated,still]

private theorem touch_of_alive (allocated : s.allocated h = true) : s.touch h = s := by simp [State.touch,State.misused,allocated]

theorem Tracked.still (tracked : Tracked s place) (other : ∀ w, place h ≠ .running w) : s.point h ≠ .running := by
  intro runs
  obtain ⟨w,running⟩ := (tracked.runs h).mp runs
  exact other w running

theorem Tracked.destroyFrame (tracked : Tracked s place) (allocated : s.allocated h = true) (idle : place h = .idle)
    (nobody : ∀ v, s.coroutine v ≠ some h) : Tracked (s.destroyFrame h) place := by
  have below := tracked.created h allocated
  rw [State.destroyFrame,query_of_alive allocated (tracked.still fun w => by simp [idle])]
  refine { tracked with owned := fun u g holds => ?_,created := fun g alive => ?_,alive := fun g flies => ?_,counts := fun g => ?_ }
  · have other : g ≠ h := fun same => nobody u (same ▸ holds)
    simpa only [Function.update_of_ne other] using tracked.owned u g holds
  · by_cases same : g = h
    · subst same
      exact below
    · simp only [Function.update_of_ne same] at alive
      exact tracked.created g alive
  · have other : g ≠ h := fun same => flies (same ▸ idle)
    simpa only [Function.update_of_ne other] using tracked.alive g flies
  · by_cases same : g = h
    · subst same
      have before := tracked.counts g
      simp [allocated] at before
      simp [before,below]
    · simpa only [Function.update_of_ne same] using tracked.counts g

variable [DecidableEq Var]

theorem Tracked.endTask (tracked : Tracked s place) (proper : ∀ h, s.coroutine v = some h → ¬ InFlight s h) :
    Tracked (s.endTask v) place := by
  unfold State.endTask
  cases here : s.coroutine v with
  | none => exact tracked
  | some h =>
    have idle : place h = .idle := by
      by_contra flies
      exact proper h here (tracked.inFlight_iff.mpr flies)
    have dropped : Tracked { s with coroutine := Function.update s.coroutine v none } place := by
      refine tracked.owners (tracked.unique.drop v) fun u g holds => ?_
      by_cases same : u = v
      · subst same
        simp at holds
      · rw [Function.update_of_ne same] at holds
        exact tracked.owned u g holds
    refine dropped.destroyFrame (tracked.owned v h here).1 idle fun u holds => ?_
    by_cases same : u = v
    · subst same
      simp at holds
    · simp only [Function.update_of_ne same] at holds
      exact same (tracked.unique u v h holds here)

variable [DecidableEq Worker]

omit [DecidableEq Var] in
theorem Tracked.push (tracked : Tracked s place) (idle : place h = .idle) (allocated : s.allocated h = true)
    (suspended : s.point h = .suspended) : Tracked (s.push h w) (Function.update place h (.queued w)) := by
  obtain ⟨unique,owned,created,queued,nodup,awaiting,running,finishing,stays,cleaning,alive,waits,runs,counts,safe⟩ := tracked
  constructor
  all_goals simp only [State.push]
  all_goals first | assumption | grind [Function.update_apply]

omit [DecidableEq Var] in
theorem Tracked.resubmit (tracked : Tracked s place) (here : s.awaiting h = some w) :
    Tracked { s.push h w with awaiting := Function.update s.awaiting h none } (Function.update place h (.queued w)) := by
  obtain ⟨unique,owned,created,queued,nodup,awaiting,running,finishing,stays,cleaning,alive,waits,runs,counts,safe⟩ := tracked
  constructor
  all_goals simp only [State.push]
  all_goals first | assumption | grind [Function.update_apply]

omit [DecidableEq Var] in
theorem Tracked.exec (tracked : Tracked s place) {rest : List Handle} (pc : s.pc w = .idle) (front : s.taskQueue w = h::rest) :
    Tracked { s.misused (!s.allocated h || s.point h ≠ .suspended) with
      taskQueue := Function.update s.taskQueue w rest
      point := Function.update s.point h .running
      pc := Function.update s.pc w (.running h) } (Function.update place h (.running w)) := by
  have here : place h = .queued w := (tracked.queued w h).mp (by simp [front])
  have allocated := tracked.alive h (by simp [here])
  have suspended := tracked.waits w h (.inl here)
  have same : s.misused (!s.allocated h || s.point h ≠ .suspended) = s := by simp [State.misused,allocated,suspended]
  rw [same]
  obtain ⟨unique,owned,created,queued,nodup,awaiting,running,finishing,stays,cleaning,alive,waits,runs,counts,safe⟩ := tracked
  constructor
  case runs =>
    intro g
    by_cases same : g = h
    · subst same
      simp
    · simpa only [Function.update_of_ne same] using runs g
  all_goals first | assumption | grind [Function.update_apply]

omit [DecidableEq Var] in
theorem Tracked.suspend (tracked : Tracked s place) (pc : s.pc w = .running h) :
    Tracked { s with
      point := Function.update s.point h .suspended
      awaiting := Function.update s.awaiting h (some w)
      pc := Function.update s.pc w (.done h) } (Function.update place h (.awaiting w)) := by
  obtain ⟨unique,owned,created,queued,nodup,awaiting,running,finishing,stays,cleaning,alive,waits,runs,counts,safe⟩ := tracked
  constructor
  all_goals first | assumption | grind [Function.update_apply]

omit [DecidableEq Var] in
theorem Tracked.coReturn (tracked : Tracked s place) (pc : s.pc w = .running h) :
    Tracked { s with
      point := Function.update s.point h .final
      pc := Function.update s.pc w (.done h) } (Function.update place h (.finishing w)) := by
  obtain ⟨unique,owned,created,queued,nodup,awaiting,running,finishing,stays,cleaning,alive,waits,runs,counts,safe⟩ := tracked
  constructor
  all_goals first | assumption | grind [Function.update_apply]

omit [DecidableEq Var] in
/-- The worker asks whether the coroutine it resumed has ended: nobody else resumes or
destroys it meanwhile. -/
theorem Tracked.done (tracked : Tracked s place) (pc : s.pc w = .done h) :
    Tracked { s.query h with pc := Function.update s.pc w (if s.point h = .final then .clean h else .idle) } place := by
  have stays := tracked.stays w h pc
  have allocated : s.allocated h = true := tracked.alive h (by rcases stays with here | ⟨_,here | here⟩ <;> simp [here])
  have still : s.point h ≠ .running := tracked.still fun w => by rcases stays with here | ⟨_,here | here⟩ <;> simp [here]
  rw [query_of_alive allocated still]
  obtain ⟨unique,owned,created,queued,nodup,awaiting,running,finishing,stays,cleaning,alive,waits,runs,counts,safe⟩ := tracked
  constructor
  all_goals first | assumption | grind [Function.update_apply]

omit [DecidableEq Var] in
theorem Tracked.leave (tracked : Tracked s place) (pc : s.pc w = .clean h) :
    Tracked { s with pc := Function.update s.pc w .idle } (Function.update place h .idle) := by
  have here := tracked.cleaning w h pc
  obtain ⟨unique,owned,created,queued,nodup,awaiting,running,finishing,stays,cleaning,alive,waits,runs,counts,safe⟩ := tracked
  constructor
  all_goals first | assumption | grind [Function.update_apply]

omit [DecidableEq Var] in
theorem Tracked.clean (tracked : Tracked s place) (pc : s.pc w = .clean h) (detached : s.state h = .detach) :
    Tracked { s.destroyFrame h with pc := Function.update s.pc w .idle } (Function.update place h .idle) := by
  have here := tracked.cleaning w h pc
  refine (tracked.leave pc).destroyFrame (tracked.alive h (by simp [here])) (by simp) fun v holds => ?_
  rw [(tracked.owned v h holds).2] at detached
  contradiction

omit [DecidableEq Worker] in
theorem Tracked.create (tracked : Tracked s place) :
    Tracked { s with
      coroutine := Function.update s.coroutine v (some s.fresh)
      allocated := Function.update s.allocated s.fresh true
      state := Function.update s.state s.fresh .normal
      point := Function.update s.point s.fresh .suspended
      fresh := s.fresh + 1 } place := by
  have unused : s.allocated s.fresh = false := by
    by_contra alive
    exact Nat.lt_irrefl _ (tracked.created s.fresh (by simpa using alive))
  have idle : place s.fresh = .idle := by
    by_contra flies
    rw [tracked.alive s.fresh flies] at unused
    contradiction
  have nobody : ∀ u, s.coroutine u ≠ some s.fresh := by
    intro u holds
    rw [(tracked.owned u s.fresh holds).1] at unused
    contradiction
  have alone := tracked.unique.take v nobody
  obtain ⟨unique,owned,created,queued,nodup,awaiting,running,finishing,stays,cleaning,alive,waits,runs,counts,safe⟩ := tracked
  constructor
  all_goals first | assumption | grind [Function.update_apply]

omit [DecidableEq Worker] in
theorem Tracked.pass (tracked : Tracked s place) (u : Var) :
    Tracked { s with coroutine := Function.update (Function.update s.coroutine u none) v (s.coroutine u) } place := by
  refine tracked.owners (tracked.unique.pass u v) fun o g holds => ?_
  have owned := tracked.owned
  grind [Function.update_apply]

omit [DecidableEq Worker] in
theorem Tracked.detach (tracked : Tracked s place) (present : s.coroutine v ≠ none) : Tracked (s.detach v) place := by
  unfold State.detach
  cases here : s.coroutine v with
  | none => exact absurd here present
  | some h =>
    simp only [touch_of_alive (tracked.owned v h here).1]
    refine tracked.owners (tracked.unique.drop v) fun u g holds => ?_
    have alone := tracked.unique
    have owned := tracked.owned
    grind [Function.update_apply,UniqueOwner]

omit [DecidableEq Var] [DecidableEq Worker] in
theorem Tracked.resume (tracked : Tracked s place) {point : Point} (idle : place h = .idle) (still : point ≠ .running) :
    Tracked { s with point := Function.update s.point h point } place := by
  have other : ∀ g, place g ≠ .idle → g ≠ h := fun g flies same => flies (same ▸ idle)
  obtain ⟨unique,owned,created,queued,nodup,awaiting,running,finishing,stays,cleaning,alive,waits,runs,counts,safe⟩ := tracked
  constructor
  all_goals first | assumption | grind [Function.update_apply]

omit [DecidableEq Var] in
theorem Tracked.submit (tracked : Tracked s place) (startable : Startable s h) :
    Tracked (s.push h w) (Function.update place h (.queued w)) := by
  obtain ⟨allocated,suspended,rests⟩ := startable
  refine tracked.push ?_ allocated suspended
  by_contra flies
  exact rests (tracked.inFlight_iff.mpr flies)

omit [DecidableEq Var] [DecidableEq Worker] in
private theorem rests_of_moved {place' : Place Worker} {g : Handle} (flies : place' ≠ .idle)
    (idle : Function.update place h place' g = .idle) : place g = .idle := by
  by_cases same : g = h
  · rw [same,Function.update_self] at idle
    exact absurd idle flies
  · rwa [Function.update_of_ne same] at idle

theorem Tracked.step {a : Action Var Worker} (tracked : Tracked s place) (proper : Proper s a) (moved : step s a = some s') :
    ∃ place', Tracked s' place' ∧ ∀ g, place' g = .idle → place g = .idle ∨ ∃ w, a = .step w ∧ s.pc w = .clean g := by
  cases a with
  | create v =>
    simp only [Ownership.step] at moved
    split at moved
    · cases moved
      exact ⟨place,tracked.create,fun _ => .inl⟩
    · contradiction
  | move v u =>
    simp only [Ownership.step] at moved
    split at moved
    · cases moved
      exact ⟨place,tracked.pass u,fun _ => .inl⟩
    · contradiction
  | assign v u =>
    simp only [Ownership.step] at moved
    split at moved
    · cases moved
      exact ⟨place,tracked,fun _ => .inl⟩
    next other =>
      cases moved
      exact ⟨place,(tracked.endTask (proper.resolve_left other)).pass u,fun _ => .inl⟩
  | endTask v | destroy v =>
    cases moved
    exact ⟨place,tracked.endTask proper,fun _ => .inl⟩
  | detach v =>
    cases moved
    exact ⟨place,tracked.detach proper,fun _ => .inl⟩
  | release v =>
    cases moved
    refine ⟨place,tracked.owners (tracked.unique.drop v) fun u g holds => ?_,fun _ => .inl⟩
    have owned := tracked.owned
    grind [Function.update_apply]
  | isReady v =>
    cases here : s.coroutine v with
    | none =>
      simp only [Ownership.step,here,Option.some.injEq] at moved
      exact ⟨place,moved ▸ tracked,fun _ => .inl⟩
    | some h =>
      simp only [Ownership.step,here,Option.some.injEq] at moved
      rw [query_of_alive (tracked.owned v h here).1 (proper h here)] at moved
      exact ⟨place,moved ▸ tracked,fun _ => .inl⟩
  | resume v finishes =>
    obtain ⟨h,here,rests⟩ := proper
    have idle : place h = .idle := by
      by_contra flies
      exact rests (tracked.inFlight_iff.mpr flies)
    have same := query_of_alive (tracked.owned v h here).1 (tracked.still fun w => by simp [idle])
    simp only [Ownership.step,here,same] at moved
    split at moved
    · cases moved
      exact ⟨place,tracked,fun _ => .inl⟩
    · cases moved
      exact ⟨place,tracked.resume idle (by split <;> simp),fun _ => .inl⟩
  | submit h w =>
    cases moved
    exact ⟨_,tracked.submit proper,fun g idle => .inl (rests_of_moved (by simp) idle)⟩
  | submitTask v w =>
    obtain ⟨h,here,startable⟩ := proper
    simp only [Ownership.step,here,Option.some.injEq] at moved
    exact ⟨_,moved ▸ tracked.submit startable,fun g idle => .inl (rests_of_moved (by simp) idle)⟩
  | submitMoved v w =>
    obtain ⟨h,here,startable⟩ := proper
    simp only [Ownership.step,here,Option.some.injEq] at moved
    have detached := tracked.detach (v := v) (by simp [here])
    have still : Startable (s.detach v) h := by
      have same := touch_of_alive (tracked.owned v h here).1
      unfold State.detach
      simp only [here,same]
      exact startable
    exact ⟨_,moved ▸ detached.submit still,fun g idle => .inl (rests_of_moved (by simp) idle)⟩
  | resubmit h =>
    cases here : s.awaiting h with
    | none => simp [Ownership.step,here] at moved
    | some w =>
      simp only [Ownership.step,here,Option.some.injEq] at moved
      exact ⟨_,moved ▸ tracked.resubmit here,fun g idle => .inl (rests_of_moved (by simp) idle)⟩
  | exec w =>
    simp only [Ownership.step] at moved
    split at moved
    next coro rest pc front =>
      cases moved
      exact ⟨_,tracked.exec pc front,fun g idle => .inl (rests_of_moved (by simp) idle)⟩
    next => contradiction
  | suspend w =>
    simp only [Ownership.step] at moved
    split at moved
    next coro pc =>
      cases moved
      exact ⟨_,tracked.suspend pc,fun g idle => .inl (rests_of_moved (by simp) idle)⟩
    next => contradiction
  | coReturn w =>
    simp only [Ownership.step] at moved
    split at moved
    next coro pc =>
      cases moved
      exact ⟨_,tracked.coReturn pc,fun g idle => .inl (rests_of_moved (by simp) idle)⟩
    next => contradiction
  | step w =>
    simp only [Ownership.step] at moved
    split at moved
    next coro pc =>
      cases moved
      exact ⟨_,tracked.done pc,fun _ => .inl⟩
    next coro pc =>
      have allocated := tracked.alive coro (by simp [tracked.cleaning w coro pc])
      rw [touch_of_alive allocated] at moved
      have left : ∀ g, Function.update place coro .idle g = .idle →
          place g = .idle ∨ ∃ w', (.step w : Action Var Worker) = .step w' ∧ s.pc w' = .clean g := by
        intro g idle
        by_cases same : g = coro
        · exact .inr ⟨w,rfl,same ▸ pc⟩
        · rw [Function.update_of_ne same] at idle
          exact .inl idle
      split at moved
      next detached =>
        cases moved
        exact ⟨_,tracked.clean pc detached,left⟩
      next =>
        cases moved
        exact ⟨_,tracked.leave pc,left⟩
    next => contradiction

theorem within_tracked {ok : State Var Worker → Action Var Worker → Prop} (proper : ∀ s a, ok s a → Proper s a)
    (within : (machine Var Worker).Within ok s) : ∃ place, Tracked s place := by
  induction within with
  | start fresh => exact ⟨_,fresh_tracked _ fresh⟩
  | step before meets moved ih =>
    obtain ⟨place,tracked⟩ := ih
    obtain ⟨place',tracked,_⟩ := tracked.step (proper _ _ meets) moved
    exact ⟨place',tracked⟩

/-- No frame is used after its end or while it runs, none is destroyed twice, each has
at most one task, and a handle in flight has its frame and is in one place: in one queue,
with its awaiter or with one worker. -/
structure SafelyOwned (s : State Var Worker) : Prop where
  safe : s.misuse = false
  destroyed : ∀ h, s.destructions h = if h < s.fresh ∧ s.allocated h = false then 1 else 0
  owner : ∀ v u h, s.coroutine v = some h → s.coroutine u = some h → v = u
  owned : ∀ v h, s.coroutine v = some h → s.allocated h = true ∧ s.state h = .normal
  inFlight : ∀ h, InFlight s h → s.allocated h = true
  once : ∀ w, (s.taskQueue w).Nodup
  apart : ∀ h w, h ∈ s.taskQueue w → s.awaiting h = none ∧ ∀ w', (h ∈ s.taskQueue w' → w' = w) ∧ s.pc w' ≠ .running h
  running : ∀ h w, s.pc w = .running h → s.awaiting h = none ∧ ∀ w', s.pc w' = .running h → w' = w

/-- Every run in which frames are submitted, resumed and destroyed only when they may be is safe. -/
theorem proper_use_is_safe (s : State Var Worker) (within : (machine Var Worker).Within Proper s) : SafelyOwned s := by
  obtain ⟨place,tracked⟩ := within_tracked (fun _ _ proper => proper) within
  refine ⟨tracked.safe,tracked.counts,tracked.unique,tracked.owned,?_,tracked.nodup,?_,?_⟩
  · exact fun h flies => tracked.alive h (tracked.inFlight_iff.mp flies)
  · intro h w member
    have here := (tracked.queued w h).mp member
    refine ⟨?_,fun w' => ⟨fun member' => ?_,fun running => ?_⟩⟩
    · by_contra waits
      obtain ⟨w',waits⟩ := Option.ne_none_iff_exists'.mp waits
      rw [(tracked.awaiting h w').mp waits] at here
      contradiction
    · have there := (tracked.queued w' h).mp member'
      rw [here] at there
      exact (Place.queued.inj there).symm
    · rw [(tracked.running w' h).mp running] at here
      contradiction
  · intro h w running
    have here := (tracked.running w h).mp running
    refine ⟨?_,fun w' running' => ?_⟩
    · by_contra waits
      obtain ⟨w',waits⟩ := Option.ne_none_iff_exists'.mp waits
      rw [(tracked.awaiting h w').mp waits] at here
      contradiction
    · have there := (tracked.running w' h).mp running'
      rw [here] at there
      exact (Place.running.inj there).symm

end

/-- A task is moved to a worker, suspends and goes on to its end; meanwhile another one
is submitted, finished and destroyed by its task object. -/
def submitBoth : List (Action Bool Bool) :=
  [.create false,.create true,.submitMoved false true,.submitTask true false,.exec true,.suspend true,.step true,.exec false,
    .coReturn false,.resubmit 0,.step false,.step false,.exec true,.isReady true,.destroy true,.coReturn true,.step true,.step true,
    .endTask false,.endTask true]

def initial : State Bool Bool :=
  ⟨fun _ => none,fun _ => false,fun _ => .normal,fun _ => .suspended,0,fun _ => [],fun _ => none,fun _ => .idle,fun _ => 0,false⟩

theorem initial_fresh : Fresh initial :=
  ⟨fun _ => rfl,fun _ => rfl,fun _ => rfl,rfl,fun _ => rfl,fun _ => rfl,fun _ => rfl,fun _ => rfl,rfl⟩

private theorem submit_both_runs : ∃ s, (machine Bool Bool).guardedRun (fun s a => Proper s a ∧ Tidy s a) initial submitBoth = some s ∧
    s.fresh = 2 ∧ s.destructions 0 = 1 := by
  have ran : ((machine Bool Bool).guardedRun (fun s a => Proper s a ∧ Tidy s a) initial submitBoth).map
      (fun s => (s.fresh,s.destructions 0)) = some (2,1) := by decide
  obtain ⟨s,ran,ends⟩ := Option.map_eq_some_iff.mp ran
  exact ⟨s,ran,Prod.mk.inj ends⟩

theorem submit_both_safe : ∃ s, (machine Bool Bool).run initial submitBoth = some s ∧ s.fresh = 2 ∧ SafelyOwned s := by
  obtain ⟨s,ran,created,_⟩ := submit_both_runs
  obtain ⟨meets,ran'⟩ := Machine.guardedRun_meets _ _ _ _ ran
  have within := meets.within (.start initial_fresh) ran'
  exact ⟨s,ran',created,proper_use_is_safe s (within.weaken fun _ _ => And.left)⟩

section
variable {s s' : State Var Worker} {place : Handle → Place Worker} {h : Handle} {v : Var} {w : Worker} [DecidableEq Var]

private theorem endTask_coroutine : (s.endTask v).coroutine = Function.update s.coroutine v none := by
  cases here : s.coroutine v with
  | none =>
    rw [← Function.eq_update_self_iff.mpr here]
    simp only [State.endTask,here]
  | some h => simp only [State.endTask,here]

private theorem endTask_allocated : (s.endTask v).allocated h = true ↔ s.allocated h = true ∧ s.coroutine v ≠ some h := by
  cases here : s.coroutine v with
  | none => simp [State.endTask,here]
  | some g =>
    simp only [State.endTask,State.destroyFrame,here]
    grind [Function.update_apply]

private theorem endTask_state : (s.endTask v).state = s.state := by
  cases here : s.coroutine v <;> simp only [State.endTask,here,State.destroyFrame,State.query,State.misused]

private theorem detach_coroutine : (s.detach v).coroutine = Function.update s.coroutine v none := by
  cases here : s.coroutine v with
  | none =>
    rw [← Function.eq_update_self_iff.mpr here]
    simp only [State.detach,here,State.misused]
  | some h => simp only [State.detach,here]

private theorem detach_allocated : (s.detach v).allocated = s.allocated := by
  cases here : s.coroutine v <;> simp only [State.detach,here,State.touch,State.misused]

private theorem detach_state : (s.detach v).state h = if s.coroutine v = some h then .detach else s.state h := by
  cases here : s.coroutine v with
  | none => simp [State.detach,here,State.misused]
  | some g =>
    simp only [State.detach,here]
    grind [Function.update_apply]

variable [DecidableEq Worker]

/-- A frame that exists and belongs to no task object is on its way to be destroyed. -/
def Kept (s : State Var Worker) (place : Handle → Place Worker) : Prop :=
  ∀ h, s.allocated h = true → (∀ v, s.coroutine v ≠ some h) → s.state h = .detach ∧ place h ≠ .idle

section
variable {place' : Handle → Place Worker} (kept : Kept s place)
include kept

omit [DecidableEq Var] [DecidableEq Worker] in
theorem Kept.keep (coroutine : s'.coroutine = s.coroutine) (allocated : s'.allocated = s.allocated) (state : s'.state = s.state)
    (stays : ∀ g, place' g = .idle → place g = .idle) : Kept s' place' := by
  intro h alive nobody
  rw [allocated] at alive
  rw [coroutine] at nobody
  obtain ⟨detached,flies⟩ := kept h alive nobody
  exact ⟨state ▸ detached,fun idle => flies (stays h idle)⟩

omit [DecidableEq Worker] in
theorem Kept.create (stays : ∀ g, place' g = .idle → place g = .idle) (empty : s.coroutine v = none) :
    Kept { s with
      coroutine := Function.update s.coroutine v (some s.fresh)
      allocated := Function.update s.allocated s.fresh true
      state := Function.update s.state s.fresh .normal
      point := Function.update s.point s.fresh .suspended
      fresh := s.fresh + 1 } place' := by
  intro h alive nobody
  have here := nobody v
  have other : h ≠ s.fresh := by
    intro same
    simp only [Function.update_self,same,ne_eq,not_true] at here
  simp only [Function.update_of_ne other] at alive ⊢
  have unowned : ∀ u, s.coroutine u ≠ some h := by
    intro u holds
    have there := nobody u
    grind [Function.update_apply]
  obtain ⟨detached,flies⟩ := kept h alive unowned
  exact ⟨detached,fun idle => flies (stays h idle)⟩

omit [DecidableEq Worker] in
theorem Kept.pass {u : Var} (stays : ∀ g, place' g = .idle → place g = .idle) (empty : s.coroutine v = none) :
    Kept { s with coroutine := Function.update (Function.update s.coroutine u none) v (s.coroutine u) } place' := by
  intro h alive nobody
  have here := nobody v
  have unowned : ∀ u, s.coroutine u ≠ some h := by
    intro o holds
    have there := nobody o
    grind [Function.update_apply]
  obtain ⟨detached,flies⟩ := kept h alive unowned
  exact ⟨detached,fun idle => flies (stays h idle)⟩

omit [DecidableEq Worker] in
theorem Kept.endTask (stays : ∀ g, place' g = .idle → place g = .idle) : Kept (s.endTask v) place' := by
  intro h alive nobody
  simp only [endTask_allocated,endTask_coroutine,endTask_state] at alive nobody ⊢
  have unowned : ∀ u, s.coroutine u ≠ some h := by
    intro o holds
    have there := nobody o
    grind [Function.update_apply]
  obtain ⟨detached,flies⟩ := kept h alive.1 unowned
  exact ⟨detached,fun idle => flies (stays h idle)⟩

omit [DecidableEq Worker] in
theorem Kept.detach (stays : ∀ g, place' g = .idle → place g = .idle)
    (flies : ∀ h, s.coroutine v = some h → place' h ≠ .idle) : Kept (s.detach v) place' := by
  intro h alive nobody
  simp only [detach_allocated,detach_coroutine,detach_state] at alive nobody ⊢
  by_cases given : s.coroutine v = some h
  · rw [if_pos given]
    exact ⟨rfl,flies h given⟩
  · have unowned : ∀ u, s.coroutine u ≠ some h := by
      intro o holds
      have there := nobody o
      grind [Function.update_apply]
    obtain ⟨detached,flies⟩ := kept h alive unowned
    rw [if_neg given]
    exact ⟨detached,fun idle => flies (stays h idle)⟩

theorem Kept.clean (leaves : ∀ g, place' g = .idle → place g = .idle ∨ g = h) (pc : s.pc w = .clean h)
    (moved : Ownership.step s (.step w) = some s') : Kept s' place' := by
  simp only [Ownership.step,pc] at moved
  split at moved
  next detached =>
    cases moved
    intro g alive nobody
    have other : g ≠ h := by
      rintro rfl
      simp [State.destroyFrame] at alive
    simp only [State.destroyFrame,Function.update_of_ne other] at alive
    obtain ⟨detached,flies⟩ := kept g alive nobody
    exact ⟨detached,fun idle => other ((leaves g idle).resolve_left flies)⟩
  next normal =>
    cases moved
    intro g alive nobody
    obtain ⟨detached,flies⟩ := kept g alive nobody
    refine ⟨detached,fun idle => normal ?_⟩
    rwa [← (leaves g idle).resolve_left flies]

end

theorem Kept.step {a : Action Var Worker} {place' : Handle → Place Worker} (kept : Kept s place) (tracked : Tracked s place)
    (tracked' : Tracked s' place') (leaves : ∀ g, place' g = .idle → place g = .idle ∨ ∃ w, a = .step w ∧ s.pc w = .clean g)
    (tidy : Tidy s a) (moved : Ownership.step s a = some s') : Kept s' place' := by
  cases a with
  | create v | move v u =>
    have stays : ∀ g, place' g = .idle → place g = .idle := fun g idle => (leaves g idle).resolve_right (by simp)
    simp only [Ownership.step] at moved
    split at moved
    next empty =>
      cases moved
      first | exact kept.create stays empty | exact kept.pass stays empty
    next => contradiction
  | assign v u =>
    have stays : ∀ g, place' g = .idle → place g = .idle := fun g idle => (leaves g idle).resolve_right (by simp)
    simp only [Ownership.step] at moved
    split at moved <;> cases moved
    · exact kept.keep rfl rfl rfl stays
    · have empty : (s.endTask v).coroutine v = none := by rw [endTask_coroutine,Function.update_self]
      exact (kept.endTask stays).pass (fun _ => id) empty
  | endTask v | destroy v =>
    cases moved
    exact kept.endTask fun g idle => (leaves g idle).resolve_right (by simp)
  | detach v =>
    cases moved
    have stays : ∀ g, place' g = .idle → place g = .idle := fun g idle => (leaves g idle).resolve_right (by simp)
    refine kept.detach stays fun h given idle => ?_
    exact tracked.inFlight_iff.mp (tidy h given) (stays h idle)
  | release v => exact absurd tidy id
  | submitMoved v w =>
    have stays : ∀ g, place' g = .idle → place g = .idle := fun g idle => (leaves g idle).resolve_right (by simp)
    simp only [Ownership.step] at moved
    split at moved <;> cases moved
    next empty => exact kept.detach stays fun h given => by simp [empty] at given
    next g given =>
      have queued : place' g = .queued w := (tracked'.queued w g).mp (by simp [State.push])
      have detached : Kept (s.detach v) place' := by
        refine kept.detach stays fun h given' => ?_
        cases Option.some.inj (given.symm.trans given')
        simp [queued]
      exact detached.keep rfl rfl rfl fun _ => id
  | step w =>
    cases pc : s.pc w with
    | idle | running coro => simp [Ownership.step,pc] at moved
    | done coro =>
      have stays : ∀ g, place' g = .idle → place g = .idle := by
        intro g idle
        refine (leaves g idle).resolve_right ?_
        rintro ⟨w',same,here⟩
        cases same
        simp [pc] at here
      simp only [Ownership.step,pc,Option.some.injEq] at moved
      subst moved
      exact kept.keep rfl rfl rfl stays
    | clean coro =>
      refine kept.clean (fun g idle => (leaves g idle).imp_right ?_) pc moved
      rintro ⟨w',same,here⟩
      cases same
      exact (Pc.clean.inj (pc.symm.trans here)).symm
  | isReady v | resume v finishes | submitTask v w | resubmit h | exec w | suspend w | coReturn w =>
    have stays : ∀ g, place' g = .idle → place g = .idle := fun g idle => (leaves g idle).resolve_right (by simp)
    simp only [Ownership.step] at moved
    split at moved
    all_goals first | contradiction | skip
    all_goals try split at moved
    all_goals
      cases moved
      exact kept.keep rfl rfl rfl stays
  | submit h w =>
    cases moved
    exact kept.keep rfl rfl rfl fun g idle => (leaves g idle).resolve_right (by simp)

/-- A frame that was created belongs to one task object, or is detached and on its way
to the worker that destroys it, or has been destroyed, once. -/
inductive Accounted (s : State Var Worker) (h : Handle) : Prop
  | owned (v : Var) (alive : s.allocated h = true) (normal : s.state h = .normal) (never : s.destructions h = 0)
      (holds : ∀ u, s.coroutine u = some h ↔ u = v)
  | detached (alive : s.allocated h = true) (detach : s.state h = .detach) (never : s.destructions h = 0)
      (nobody : ∀ u, s.coroutine u ≠ some h) (flies : InFlight s h)
  | destroyed (dead : s.allocated h = false) (once : s.destructions h = 1) (nobody : ∀ u, s.coroutine u ≠ some h)
      (rests : ¬ InFlight s h)

omit [DecidableEq Var] [DecidableEq Worker] in
theorem Tracked.accounted (tracked : Tracked s place) (kept : Kept s place) (created : h < s.fresh) : Accounted s h := by
  have counts := tracked.counts h
  cases alive : s.allocated h with
  | false =>
    rw [if_pos ⟨created,alive⟩] at counts
    refine .destroyed alive counts (fun u holds => ?_) fun flies => ?_
    · rw [(tracked.owned u h holds).1] at alive
      contradiction
    · rw [tracked.alive h (tracked.inFlight_iff.mp flies)] at alive
      contradiction
  | true =>
    rw [if_neg fun gone => by simp [alive] at gone] at counts
    by_cases holds : ∃ v, s.coroutine v = some h
    · obtain ⟨v,holds⟩ := holds
      refine .owned v alive (tracked.owned v h holds).2 counts fun u => ⟨fun holds' => ?_,fun same => same ▸ holds⟩
      exact tracked.unique u v h holds' holds
    · have nobody : ∀ u, s.coroutine u ≠ some h := fun u holds' => holds ⟨u,holds'⟩
      obtain ⟨detach,flies⟩ := kept h alive nobody
      exact .detached alive detach counts nobody (tracked.inFlight_iff.mpr flies)

end

end TinyCoro.Task.Ownership
