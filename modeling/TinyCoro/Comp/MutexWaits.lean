import TinyCoro.Comp.MutexInvariant

/-! Submissions are counted for each wait, and the list of a condition variable
is the end of the history of its registrations. -/
namespace TinyCoro.Mutex
open Library

/-- The awaiter that was taken from a condition variable and is to take the mutex. -/
def Pc.waking {Cv : Type} : Pc Cv → Option Addr
  | .loadState self (some _) | .compareExchange self _ (some _) => some self
  | .oneUnlock _ cur => cur
  | _ => none

@[simp] theorem finish_waking {Cv : Type} (f : Frame Cv) : f.finish.waking = none := by
  induction f with
  | resume _ _ ih => exact ih
  | _ => rfl

private theorem hand_of_waking {Cv : Type} {pc : Pc Cv} {a : Addr} (waking : pc.waking = some a) : pc.hand = some a := by
  cases pc with
  | loadState b waker | compareExchange b state waker => cases waker <;> simp_all [Pc.waking,Pc.hand]
  | oneUnlock k cur => exact waking
  | _ => simp [Pc.waking] at waking

theorem finish_not_awaitResume {Cv : Type} (f : Frame Cv) (a : Addr) : f.finish ≠ .awaitResume a := by
  induction f with
  | resume _ _ ih => exact ih
  | _ => simp [Frame.finish]

variable {Coro Ctx Cv Shared : Type} [DecidableEq Coro] [DecidableEq Ctx] [DecidableEq Cv]

structure Counted (s : State Coro Ctx Cv Shared) (g : Lists Coro Cv) : Prop where
  waiting : ∀ a, g.place a ≠ .gone → g.place a ≠ .submitted → s.pc (s.awaitCoro a) ≠ .awaitResume a → s.submissions a = 0
  submitted : ∀ a, g.place a = .submitted → s.submissions a = 1
  resumed : ∀ t a, s.pc t = .awaitResume a → s.submissions a ≤ 1
  order : ∀ k, g.waiting k = (s.registrations k).drop (s.taken k)
  within : ∀ k, s.taken k ≤ (s.registrations k).length
  woken : ∀ t a, (s.pc t).waking = some a → s.kind a ≠ .lock
  detached : ∀ t a, g.place a = .snapshot t → s.kind a ≠ .lock

omit [DecidableEq Coro] [DecidableEq Ctx] [DecidableEq Cv] in
theorem fresh_counted (s : State Coro Ctx Cv Shared) (fresh : Fresh s) : Counted s (.initial : Lists Coro Cv) := by
  obtain ⟨_,_,_,_,_,_,pc,_,_,registrations,taken,_⟩ := fresh
  constructor <;> simp [Lists.initial,pc,registrations,taken,Pc.waking]

section
variable {s s' : State Coro Ctx Cv Shared} {h : Holder Coro} {g g' : Lists Coro Cv} {t : Coro}

omit [DecidableEq Ctx] [DecidableEq Cv] in
theorem Counted.pass (counted : Counted s g) {p q : Pc Cv} (before : s.pc t = q)
    (pc : s'.pc = Function.update s.pc t p) (awaitCoro : s'.awaitCoro = s.awaitCoro) (kind : s'.kind = s.kind)
    (submissions : s'.submissions = s.submissions)
    (order : ∀ k, g'.waiting k = (s'.registrations k).drop (s'.taken k)) (within : ∀ k, s'.taken k ≤ (s'.registrations k).length)
    (places : ∀ a, g'.place a ≠ .gone → g'.place a ≠ .submitted → g.place a ≠ .gone ∧ g.place a ≠ .submitted)
    (submitted : ∀ a, g'.place a = .submitted → g.place a = .submitted)
    (detached : ∀ a u, g'.place a = .snapshot u → s.kind a ≠ .lock)
    (running : ∀ a, q ≠ .awaitResume a) (resumed : ∀ a, p = .awaitResume a → s.submissions a ≤ 1)
    (woken : ∀ a, p.waking = some a → s.kind a ≠ .lock) : Counted s' g' := by
  refine ⟨?_,?_,?_,order,within,?_,?_⟩
  · intro a notGone notSubmitted notResumed
    obtain ⟨first,second⟩ := places a notGone notSubmitted
    rw [submissions]
    refine counted.waiting a first second fun resumes => ?_
    rw [awaitCoro] at notResumed
    rcases pc_moved pc (s.awaitCoro a) with ⟨mine,_⟩ | ⟨_,now⟩
    · rw [mine,before] at resumes
      exact running a resumes
    · rw [now] at notResumed
      exact notResumed resumes
  · intro a place
    rw [submissions]
    exact counted.submitted a (submitted a place)
  · intro u a resumes
    rw [submissions]
    rcases pc_moved pc u with ⟨_,now⟩ | ⟨_,now⟩
    · rw [now] at resumes
      exact resumed a resumes
    · rw [now] at resumes
      exact counted.resumed u a resumes
  · intro u a wakes
    rw [kind]
    rcases pc_moved pc u with ⟨_,now⟩ | ⟨_,now⟩
    · rw [now] at wakes
      exact woken a wakes
    · rw [now] at wakes
      exact counted.woken u a wakes
  · intro u a place
    rw [kind]
    exact detached a u place

omit [DecidableEq Ctx] [DecidableEq Cv] in
theorem Counted.goto (counted : Counted s g) {p q : Pc Cv} (before : s.pc t = q)
    (pc : s'.pc = Function.update s.pc t p) (awaitCoro : s'.awaitCoro = s.awaitCoro) (kind : s'.kind = s.kind)
    (submissions : s'.submissions = s.submissions) (registrations : s'.registrations = s.registrations)
    (taken : s'.taken = s.taken) (waiting : g'.waiting = g.waiting)
    (places : ∀ a, g'.place a ≠ .gone → g'.place a ≠ .submitted → g.place a ≠ .gone ∧ g.place a ≠ .submitted)
    (submitted : ∀ a, g'.place a = .submitted → g.place a = .submitted)
    (snapshot : ∀ a u, g'.place a = .snapshot u → g.place a = .snapshot u)
    (running : ∀ a, q ≠ .awaitResume a) (resumed : ∀ a, p = .awaitResume a → s.submissions a ≤ 1)
    (woken : ∀ a, p.waking = some a → s.kind a ≠ .lock) : Counted s' g' := by
  refine counted.pass before pc awaitCoro kind submissions ?order ?within places submitted ?detached running resumed woken
  case order =>
    intro k
    rw [waiting,registrations,taken]
    exact counted.order k
  case within =>
    intro k
    rw [registrations,taken]
    exact counted.within k
  case detached => exact fun a u place => counted.detached u a (snapshot a u place)

omit [DecidableEq Ctx] [DecidableEq Cv] in
theorem Counted.stay (counted : Counted s g) {p q : Pc Cv} (before : s.pc t = q)
    (pc : s'.pc = Function.update s.pc t p) (awaitCoro : s'.awaitCoro = s.awaitCoro) (kind : s'.kind = s.kind)
    (submissions : s'.submissions = s.submissions) (registrations : s'.registrations = s.registrations)
    (taken : s'.taken = s.taken) (running : ∀ a, q ≠ .awaitResume a)
    (resumed : ∀ a, p = .awaitResume a → s.submissions a ≤ 1)
    (woken : ∀ a, p.waking = some a → s.kind a ≠ .lock) : Counted s' g :=
  counted.goto before pc awaitCoro kind submissions registrations taken rfl (fun _ => And.intro) (fun _ => id)
    (fun _ _ => id) running resumed woken

omit [DecidableEq Coro] [DecidableEq Ctx] [DecidableEq Cv] in
theorem Counted.unsubmitted (counted : Counted s g) (tracked : Tracked s g) {a : Addr} (hand : (s.pc t).hand = some a)
    (running : s.pc t ≠ .awaitResume a) : s.submissions a = 0 := by
  have place := (tracked.placed.hand t a).mp hand
  refine counted.waiting a (by rw [place]; simp) (by rw [place]; simp) fun resumes => ?_
  have mine := tracked.placed.hand_unique hand (u := s.awaitCoro a) (by rw [resumes]; rfl)
  rw [mine] at resumes
  exact running resumes

omit [DecidableEq Ctx] [DecidableEq Cv] in
private theorem Counted.about (counted : Counted s g) (tracked : Tracked s g) (self : Addr) {p : Pc Cv}
    (pc : s'.pc = Function.update s.pc t p) (awaitCoro : ∀ a, a ≠ self → s'.awaitCoro a = s.awaitCoro a)
    (kind : ∀ a, a ≠ self → s'.kind a = s.kind a) (submissions : ∀ a, a ≠ self → s'.submissions a = s.submissions a)
    (places : ∀ a, a ≠ self → g'.place a = g.place a) (apart : ∀ u, g.place self = .hand u → u = t)
    (before : ∀ a, s.pc t = .awaitResume a → a = self)
    (order : ∀ k, g'.waiting k = (s'.registrations k).drop (s'.taken k)) (within : ∀ k, s'.taken k ≤ (s'.registrations k).length)
    (waiting : g'.place self ≠ .gone → g'.place self ≠ .submitted → s'.pc (s'.awaitCoro self) ≠ .awaitResume self →
      s'.submissions self = 0)
    (submitted : g'.place self = .submitted → s'.submissions self = 1) (detached : ∀ u, g'.place self ≠ .snapshot u)
    (resumed : ∀ a, p = .awaitResume a → a = self ∧ s'.submissions self ≤ 1)
    (woken : ∀ a, p.waking = some a → a = self ∧ s'.kind self ≠ .lock) : Counted s' g' := by
  have handless : ∀ u a, u ≠ t → (s.pc u).hand = some a → a ≠ self := by
    intro u a other hand same
    subst same
    exact other (apart u ((tracked.placed.hand u a).mp hand))
  refine ⟨?_,?_,?_,order,within,?_,?_⟩
  · intro a notGone notSubmitted notResumed
    by_cases same : a = self
    · subst same
      exact waiting notGone notSubmitted notResumed
    · rw [places a same] at notGone notSubmitted
      rw [submissions a same]
      refine counted.waiting a notGone notSubmitted fun resumes => ?_
      rw [awaitCoro a same] at notResumed
      rcases pc_moved pc (s.awaitCoro a) with ⟨mine,_⟩ | ⟨_,now⟩
      · rw [mine] at resumes
        exact same (before a resumes)
      · rw [now] at notResumed
        exact notResumed resumes
  · intro a place
    by_cases same : a = self
    · subst same
      exact submitted place
    · rw [places a same] at place
      rw [submissions a same]
      exact counted.submitted a place
  · intro u a resumes
    rcases pc_moved pc u with ⟨_,now⟩ | ⟨other,now⟩
    · rw [now] at resumes
      obtain ⟨same,atMost⟩ := resumed a resumes
      rw [same]
      exact atMost
    · rw [now] at resumes
      rw [submissions a (handless u a other (by rw [resumes]; rfl))]
      exact counted.resumed u a resumes
  · intro u a wakes
    rcases pc_moved pc u with ⟨_,now⟩ | ⟨other,now⟩
    · rw [now] at wakes
      obtain ⟨same,waits⟩ := woken a wakes
      rw [same]
      exact waits
    · rw [now] at wakes
      rw [kind a (handless u a other (hand_of_waking wakes))]
      exact counted.woken u a wakes
  · intro u a place
    by_cases same : a = self
    · subst same
      exact absurd place (detached u)
    · rw [places a same] at place
      rw [kind a same]
      exact counted.detached u a place

omit [DecidableEq Cv] in
theorem Counted.submit (counted : Counted s g) (tracked : Tracked s g) {self : Addr} {caller : Frame Cv}
    (pc : s.pc t = .submitTask self caller) :
    Counted { s.goto t caller.finish with
        contexts := s.contexts.submitTask (s.ctx self) (s.awaitCoro self)
        submissions := Function.update s.submissions self (s.submissions self + 1) }
      { g with place := Function.update g.place self .submitted } := by
  have fresh := counted.unsubmitted tracked (t := t) (a := self) (by rw [pc]; rfl) (by simp [pc])
  have mine : g.place self = .hand t := (tracked.placed.hand t self).mp (by rw [pc]; rfl)
  refine counted.about tracked self rfl (fun _ _ => rfl) (fun _ _ => rfl) ?submissions ?places ?apart ?before counted.order
    counted.within ?waiting ?submitted ?detached ?resumed ?woken
  case submissions => exact fun a other => Function.update_of_ne other ..
  case places => exact fun a other => Function.update_of_ne other ..
  case apart => exact fun u theirs => (Place.hand.inj (mine.symm.trans theirs)).symm
  case before =>
    intro a resumes
    rw [pc] at resumes
    contradiction
  case waiting => exact fun _ notSubmitted => absurd (Function.update_self ..) notSubmitted
  case submitted =>
    intro _
    refine (Function.update_self ..).trans ?_
    rw [fresh]
  case detached => simp
  case resumed => exact fun a resumes => absurd resumes (finish_not_awaitResume caller a)
  case woken =>
    intro a wakes
    rw [finish_waking] at wakes
    contradiction

omit [DecidableEq Ctx] [DecidableEq Cv] in
theorem Counted.construct (counted : Counted s g) (tracked : Tracked s g) {self : Addr} {x : Ctx} {kind : Kind Cv Shared}
    {p : Pc Cv} {owns : Coro → Bool} (free : s.live self = false) (pc : s.pc t = .idle)
    (running : ∀ a, p ≠ .awaitResume a) (waking : p.waking = none) :
    Counted { (s.construct t self x kind).goto t p with owns := owns }
      { g with place := Function.update g.place self (.hand t) } := by
  have gone := (tracked.placed.gone self).mpr free
  refine counted.about tracked self rfl ?awaitCoro ?kind ?submissions ?places ?apart ?before counted.order counted.within
    ?waiting ?submitted ?detached ?resumed ?woken
  case awaitCoro => exact fun a other => Function.update_of_ne other ..
  case kind => exact fun a other => Function.update_of_ne other ..
  case submissions => exact fun a other => Function.update_of_ne other ..
  case places => exact fun a other => Function.update_of_ne other ..
  case apart => simp [gone]
  case before => simp [pc]
  case waiting => exact fun _ _ _ => Function.update_self ..
  case submitted => simp
  case detached => simp
  case resumed => exact fun a resumes => absurd resumes (running a)
  case woken => simp [waking]

omit [DecidableEq Ctx] [DecidableEq Cv] in
theorem Counted.destroy (counted : Counted s g) (tracked : Tracked s g) {self : Addr} {contexts : Contexts Ctx Coro}
    {owns : Coro → Bool} (pc : s.pc t = .awaitResume self) :
    Counted { s.goto t .idle with
        contexts := contexts
        live := Function.update s.live self false
        owns := owns }
      { g with place := Function.update g.place self .gone } := by
  have mine : g.place self = .hand t := (tracked.placed.hand t self).mp (by rw [pc]; rfl)
  refine counted.about tracked self rfl (fun _ _ => rfl) (fun _ _ => rfl) (fun _ _ => rfl) ?places ?apart ?before counted.order
    counted.within ?waiting ?submitted ?detached nofun nofun
  case places => exact fun a other => Function.update_of_ne other ..
  case apart => exact fun u theirs => (Place.hand.inj (mine.symm.trans theirs)).symm
  case before =>
    intro a resumes
    rw [pc] at resumes
    exact (Pc.awaitResume.inj resumes).symm
  case waiting => exact fun present => absurd (Function.update_self ..) present
  case submitted => simp
  case detached => simp

omit [DecidableEq Cv] in
theorem Counted.exec (counted : Counted s g) (tracked : Tracked s g) {self : Addr} {x : Ctx} {rest : List Coro}
    (queue : s.contexts.taskQueue x = t::rest) (pc : s.pc t = .suspended self) :
    Counted { s.goto t (.awaitResume self) with contexts := s.contexts.pop x rest }
      { g with place := Function.update g.place self (.hand t) } := by
  obtain ⟨a,place,coro,_⟩ := tracked.placed.queued t x (by simp [queue])
  have same : a = self := by
    obtain ⟨waits,_⟩ := tracked.placed.submitted a place
    rw [coro,pc] at waits
    exact (Pc.suspended.inj waits).symm
  subst same
  refine counted.about tracked a rfl (fun _ _ => rfl) (fun _ _ => rfl) (fun _ _ => rfl) ?places ?apart ?before counted.order
    counted.within ?waiting ?submitted ?detached ?resumed nofun
  case places => exact fun b other => Function.update_of_ne other ..
  case apart => simp [place]
  case before => simp [pc]
  case waiting =>
    intro _ _ notResumed
    refine absurd ?_ notResumed
    simp only [State.goto,coro,Function.update_self]
  case submitted => simp
  case detached => simp
  case resumed =>
    intro b resumes
    exact ⟨(Pc.awaitResume.inj resumes).symm,Nat.le_of_eq (counted.submitted a place)⟩

omit [DecidableEq Ctx] in
/-- `register_cv` appends to the history and to the list alike. -/
theorem Counted.link (counted : Counted s g) (tracked : Tracked s g) {self : Addr} {cv : Cv} {caller : Frame Cv}
    {next : Addr → Option Addr} {head tail : Cv → Option Addr} (pc : s.pc t = .cvLink self cv caller) :
    Counted { s.goto t (.cvUnlock self cv caller) with
        next := next
        head := head
        tail := tail
        registrations := Function.update s.registrations cv (s.registrations cv ++ [self]) }
      { g with
        waiting := Function.update g.waiting cv (g.waiting cv ++ [self])
        place := Function.update g.place self (.cv cv) } := by
  have fresh := counted.unsubmitted tracked (t := t) (a := self) (by rw [pc]; rfl) (by simp [pc])
  have mine : g.place self = .hand t := (tracked.placed.hand t self).mp (by rw [pc]; rfl)
  refine counted.about tracked self rfl (fun _ _ => rfl) (fun _ _ => rfl) (fun _ _ => rfl) ?places ?apart ?before ?order ?within
    (fun _ _ _ => fresh) ?submitted ?detached nofun nofun
  case places => exact fun a other => Function.update_of_ne other ..
  case apart => exact fun u theirs => (Place.hand.inj (mine.symm.trans theirs)).symm
  case before => simp [pc]
  case order =>
    intro k
    dsimp only
    by_cases same : k = cv
    · subst same
      simp [State.goto,counted.order,List.drop_append_of_le_length (counted.within k)]
    · simpa [State.goto,same] using counted.order k
  case within =>
    intro k
    have within := counted.within k
    dsimp only
    by_cases same : k = cv
    · subst same
      simp only [Function.update_self,List.length_append]
      exact Nat.le_add_right_of_le within
    · simpa [State.goto,same] using within
  case submitted => simp
  case detached => simp

omit [DecidableEq Ctx] in
theorem Counted.takeOne (counted : Counted s g) (tracked : Tracked s g) {cv : Cv} {cur : Addr}
    {head tail : Cv → Option Addr} (pc : s.pc t = .oneTake cv) (some : s.head cv = some cur) :
    Counted { s.goto t (.oneUnlock cv (.some cur)) with
        head := head
        tail := tail
        taken := Function.update s.taken cv (s.taken cv + 1) }
      { g with
        waiting := Function.update g.waiting cv (g.waiting cv).tail
        place := Function.update g.place cur (.hand t) } := by
  have chain := tracked.linked.waiting cv
  rw [some] at chain
  obtain ⟨rest,front,_⟩ := Chain.some_iff.mp chain
  have place : g.place cur = .cv cv := (tracked.linked.inWaiting cv cur).mp (by simp [front])
  obtain ⟨_,kind⟩ := tracked.placed.kind cur cv place
  have fresh : s.submissions cur = 0 := by
    refine counted.waiting cur (by simp [place]) (by simp [place]) fun resumes => ?_
    have theirs := (tracked.placed.hand (s.awaitCoro cur) cur).mp (by rw [resumes]; rfl)
    rw [place] at theirs
    contradiction
  refine counted.about tracked cur rfl (fun _ _ => rfl) (fun _ _ => rfl) (fun _ _ => rfl) ?places ?apart ?before ?order ?within
    (fun _ _ _ => fresh) ?submitted ?detached nofun ?woken
  case places => exact fun a other => Function.update_of_ne other ..
  case apart => simp [place]
  case before => simp [pc]
  case order =>
    intro k
    dsimp only
    by_cases same : k = cv
    · subst same
      simp [State.goto,counted.order]
    · simpa [State.goto,same] using counted.order k
  case within =>
    intro k
    have within := counted.within k
    dsimp only
    by_cases same : k = cv
    · subst same
      -- the list is not empty, so there is a registration that was not taken
      have length : (g.waiting k).length = rest.length + 1 := by rw [front,List.length_cons]
      rw [counted.order,List.length_drop] at length
      simp only [State.goto,Function.update_self]
      omega
    · simpa [State.goto,same] using within
  case submitted => simp
  case detached => simp
  case woken =>
    intro a wakes
    refine ⟨(Option.some.inj wakes).symm,?_⟩
    simp [State.goto,kind]

omit [DecidableEq Ctx] in
theorem Counted.takeAll (counted : Counted s g) (tracked : Tracked s g) {cv : Cv} {head tail : Cv → Option Addr}
    (pc : s.pc t = .allTake cv) :
    Counted { s.goto t (.allUnlock cv (s.head cv)) with
        head := head
        tail := tail
        taken := Function.update s.taken cv (s.registrations cv).length }
      { g with
        waiting := Function.update g.waiting cv []
        snapshot := Function.update g.snapshot t (g.waiting cv)
        place := fun a => if g.place a = .cv cv then .snapshot t else g.place a } := by
  have gone : ∀ a, (if g.place a = .cv cv then .snapshot t else g.place a) = .gone ↔ g.place a = .gone :=
    place_moved (by simp) (by simp)
  have submitted : ∀ a, (if g.place a = .cv cv then .snapshot t else g.place a) = .submitted ↔ g.place a = .submitted :=
    place_moved (by simp) (by simp)
  refine counted.pass pc rfl rfl rfl rfl ?order ?within ?places (fun a => (submitted a).mp) ?detached nofun nofun nofun
  case order =>
    intro k
    dsimp only
    by_cases same : k = cv
    · subst same
      simp [State.goto]
    · simpa [State.goto,same] using counted.order k
  case within =>
    intro k
    dsimp only
    by_cases same : k = cv
    · subst same
      simp [State.goto]
    · simpa [State.goto,same] using counted.within k
  case places => exact fun a present waits => ⟨present ∘ (gone a).mpr,waits ∘ (submitted a).mpr⟩
  case detached =>
    intro a u place
    dsimp only at place
    split at place
    next waits =>
      obtain ⟨_,kind⟩ := tracked.placed.kind a cv waits
      simp [kind]
    next => exact counted.detached u a place

omit [DecidableEq Ctx] [DecidableEq Cv] in
theorem Counted.move (counted : Counted s g) {p q : Pc Cv} {self : Addr} {place : Place Coro Cv} (before : s.pc t = q)
    (pc : s'.pc = Function.update s.pc t p) (awaitCoro : s'.awaitCoro = s.awaitCoro) (kind : s'.kind = s.kind)
    (submissions : s'.submissions = s.submissions) (registrations : s'.registrations = s.registrations)
    (taken : s'.taken = s.taken) (waiting : g'.waiting = g.waiting) (moved : g'.place = Function.update g.place self place)
    (former : g.place self ≠ .gone ∧ g.place self ≠ .submitted) (target : place ≠ .submitted ∧ ∀ u, place ≠ .snapshot u)
    (running : ∀ a, q ≠ .awaitResume a) (resumed : ∀ a, p ≠ .awaitResume a)
    (woken : ∀ a, p.waking = some a → s.kind a ≠ .lock) : Counted s' g' := by
  have here : g'.place self = place := by rw [moved,Function.update_self]
  have others : ∀ a, a ≠ self → g'.place a = g.place a := by
    intro a other
    rw [moved,Function.update_of_ne other]
  refine counted.goto before pc awaitCoro kind submissions registrations taken waiting ?places ?submitted ?snapshot running
    (fun a here => absurd here (resumed a)) woken
  case places =>
    intro a notGone notSubmitted
    by_cases same : a = self
    · rw [same]
      exact former
    · rw [others a same] at notGone notSubmitted
      exact ⟨notGone,notSubmitted⟩
  case submitted =>
    intro a submitted
    by_cases same : a = self
    · rw [same,here] at submitted
      exact absurd submitted target.1
    · rw [← others a same]
      exact submitted
  case snapshot =>
    intro a u snapshot
    by_cases same : a = self
    · rw [same,here] at snapshot
      exact absurd snapshot (target.2 u)
    · rw [← others a same]
      exact snapshot

theorem Counted.advance (counted : Counted s g) (tracked : Tracked s g) (owned : Owned s h)
    (moved : advance s t = some s') : Counted s' (g.after s (.step t)) := by
  cases pc : s.pc t with
  | idle | suspended self | aborted => simp [Mutex.advance,pc] at moved
  | loadState self waker =>
    simp only [Mutex.advance,pc,Option.some.injEq] at moved
    subst moved
    simp only [Lists.after,pc]
    refine counted.stay pc rfl rfl rfl rfl rfl rfl (by simp) (by simp) fun a wakes => counted.woken t a ?_
    rw [pc]
    cases waker <;> exact wakes
  | compareExchange self state waker =>
    have hand : (s.pc t).hand = some self := by rw [pc]; rfl
    have fresh := counted.unsubmitted tracked hand (by simp [pc])
    have place := (tracked.placed.hand t self).mp hand
    simp only [Mutex.advance,pc] at moved
    split at moved
    next same =>
      subst same
      cases here : s.state with
      | nolocked =>
        simp only [here] at moved
        cases moved
        simp only [Lists.after,pc,here]
        refine counted.stay pc rfl rfl rfl rfl rfl rfl (by simp) ?_ ?_
        all_goals cases waker
        all_goals simp [Pc.waking,fresh]
      | locked head =>
        simp only [here] at moved
        cases moved
        simp only [Lists.after,pc,here,ite_true]
        refine counted.move pc rfl rfl rfl rfl rfl rfl rfl rfl (by simp [place]) (by simp) (by simp) ?_ ?_
        · cases waker <;> simp [finish_not_awaitResume]
        · cases waker with
          | none => simp [Pc.waking]
          | some caller => simp
    next other =>
      cases moved
      have same : g.after s (.step t) = g := by
        simp only [Lists.after,pc]
        cases state with
        | nolocked => rfl
        | locked head => exact if_neg other
      rw [same]
      refine counted.stay pc rfl rfl rfl rfl rfl rfl (by simp) (by simp) fun a wakes => counted.woken t a ?_
      rw [pc]
      cases waker <;> exact wakes
  | awaitResume self =>
    simp only [Mutex.advance,pc,Option.some.injEq] at moved
    subst moved
    simp only [Lists.after,pc]
    exact counted.destroy tracked pc
  | unlock caller =>
    have locked := owned.locked (t := t) (by rw [pc]; rfl)
    simp only [Mutex.advance,pc,Option.some.injEq,if_neg locked] at moved
    subst moved
    simp only [Lists.after,pc]
    exact counted.stay pc rfl rfl rfl rfl rfl rfl (by simp) (by simp) (by simp [Pc.waking])
  | unlockHead caller =>
    cases head : s.resumeListHead with
    | none =>
      simp only [Mutex.advance,pc,head,Option.some.injEq] at moved
      subst moved
      simp only [Lists.after,pc,head]
      exact counted.stay pc rfl rfl rfl rfl rfl rfl (by simp) (by simp) (by simp [Pc.waking])
    | some toResume =>
      simp only [Mutex.advance,pc,head,Option.some.injEq] at moved
      subst moved
      simp only [Lists.after,pc,head]
      have first := tracked.linked.resumeList fun u => owned.quietly pc u
      rw [head] at first
      obtain ⟨rest,ready,_⟩ := Chain.some_iff.mp first
      have place := (tracked.linked.inReady toResume).mp (by simp [ready])
      exact counted.move pc rfl rfl rfl rfl rfl rfl rfl rfl (by simp [place]) (by simp) (by simp) (by simp) (by simp [Pc.waking])
  | unlockPop toResume caller =>
    obtain ⟨rest,ready,_⟩ := Chain.some_iff.mp (tracked.linked.pop t toResume caller pc)
    have place := (tracked.linked.inReady toResume).mp (by simp [ready])
    simp only [Mutex.advance,pc,Option.some.injEq] at moved
    subst moved
    simp only [Lists.after,pc]
    exact counted.move pc rfl rfl rfl rfl rfl rfl rfl rfl (by simp [place]) (by simp) (by simp) (by simp) (by simp [Pc.waking])
  | unlockCompareExchange caller =>
    simp only [Mutex.advance,pc] at moved
    simp only [Lists.after,pc]
    split at moved
    next =>
      cases moved
      exact counted.stay pc rfl rfl rfl rfl rfl rfl (by simp) (fun a here => absurd here (finish_not_awaitResume _ a)) (by simp)
    next =>
      cases moved
      exact counted.stay pc rfl rfl rfl rfl rfl rfl (by simp) (by simp) (by simp [Pc.waking])
  | unlockExchange caller =>
    have gone : ∀ a, (if g.place a = .state then .resumeList else g.place a) = .gone ↔ g.place a = .gone :=
      place_moved (by simp) (by simp)
    have submitted : ∀ a, (if g.place a = .state then .resumeList else g.place a) = .submitted ↔ g.place a = .submitted :=
      place_moved (by simp) (by simp)
    have snapshot : ∀ u a, (if g.place a = .state then .resumeList else g.place a) = .snapshot u ↔ g.place a = .snapshot u :=
      fun u => place_moved (by simp) (by simp)
    simp only [Mutex.advance,pc] at moved
    simp only [Lists.after,pc]
    split at moved
    all_goals cases moved
    all_goals
      exact counted.goto pc rfl rfl rfl rfl rfl rfl rfl
        (fun a present waits => ⟨present ∘ (gone a).mpr,waits ∘ (submitted a).mpr⟩) (fun a => (submitted a).mp)
        (fun a u => (snapshot u a).mp) (by simp) (by simp) (by simp [Pc.waking])
  | resume self caller =>
    simp only [Mutex.advance,pc] at moved
    simp only [Lists.after,pc]
    split at moved
    all_goals cases moved
    all_goals refine counted.stay pc rfl rfl rfl rfl rfl rfl (by simp) ?_ ?_
    all_goals try split
    all_goals simp [Pc.waking]
  | submitTask self caller =>
    simp only [Mutex.advance,pc,Option.some.injEq] at moved
    subst moved
    simp only [Lists.after,pc]
    exact counted.submit tracked pc
  | cvAwaitSuspend self =>
    have fresh := counted.unsubmitted tracked (t := t) (a := self) (by rw [pc]; rfl) (by simp [pc])
    simp only [Mutex.advance,pc] at moved
    simp only [Lists.after,pc]
    split at moved
    next => contradiction
    next cv cond wait =>
      cases moved
      refine counted.stay pc rfl rfl rfl rfl rfl rfl (by simp) ?_ ?_
      all_goals split
      all_goals simp [Pc.waking,fresh]
  | cvLink self cv caller =>
    simp only [Mutex.advance,pc] at moved
    simp only [Lists.after,pc]
    split at moved
    all_goals cases moved
    all_goals exact counted.link tracked pc
  | oneTake cv =>
    cases head : s.head cv with
    | none =>
      simp only [Mutex.advance,pc,head,Option.some.injEq] at moved
      subst moved
      simp only [Lists.after,pc,head]
      exact counted.stay pc rfl rfl rfl rfl rfl rfl (by simp) (by simp) (by simp [Pc.waking])
    | some cur =>
      simp only [Mutex.advance,pc,head,Option.some.injEq] at moved
      subst moved
      simp only [Lists.after,pc,head]
      exact counted.takeOne tracked pc head
  | oneUnlock cv cur =>
    simp only [Mutex.advance,pc,Option.some.injEq] at moved
    subst moved
    simp only [Lists.after,pc]
    refine counted.stay pc rfl rfl rfl rfl rfl rfl (by simp) ?_ fun a wakes => counted.woken t a ?_
    · cases cur <;> simp
    · rw [pc]
      cases cur <;> exact wakes
  | allTake cv =>
    simp only [Mutex.advance,pc,Option.some.injEq] at moved
    subst moved
    simp only [Lists.after,pc]
    exact counted.takeAll tracked pc
  | allLoop cv curHead =>
    cases curHead with
    | none =>
      simp only [Mutex.advance,pc,Option.some.injEq] at moved
      subst moved
      simp only [Lists.after,pc]
      exact counted.stay pc rfl rfl rfl rfl rfl rfl (by simp) (by simp) (by simp [Pc.waking])
    | some curHead =>
      have chain := tracked.linked.snapshot t
      rw [pc] at chain
      obtain ⟨rest,front,_⟩ := Chain.some_iff.mp chain
      have place := (tracked.linked.inSnapshot t curHead).mp (by simp [front])
      have kind := counted.detached t curHead place
      simp only [Mutex.advance,pc,Option.some.injEq] at moved
      subst moved
      simp only [Lists.after,pc]
      refine counted.move pc rfl rfl rfl rfl rfl rfl rfl rfl (by simp [place]) (by simp) (by simp) (by simp) ?_
      rintro a ⟨⟩
      exact kind
  | cvLock self cv caller | oneLock cv | allLock cv =>
    simp only [Mutex.advance,pc] at moved
    simp only [Lists.after,pc]
    split at moved
    next => contradiction
    next =>
      cases moved
      exact counted.stay pc rfl rfl rfl rfl rfl rfl (by simp) (by simp) (by simp [Pc.waking])
  | unlockReverse awaiter toResume caller =>
    simp only [Mutex.advance,pc,Option.some.injEq] at moved
    subst moved
    simp only [Lists.after,pc]
    refine counted.stay pc rfl rfl rfl rfl rfl rfl (by simp) ?_ ?_
    all_goals split
    all_goals simp [Pc.waking]
  | _ =>
    simp only [Mutex.advance,pc,Option.some.injEq] at moved
    subst moved
    simp only [Lists.after,pc]
    exact counted.stay pc rfl rfl rfl rfl rfl rfl (by simp) (by simp) (by simp [Pc.waking])

theorem Counted.step {a : Action Coro Ctx Cv Shared} (counted : Counted s g) (tracked : Tracked s g) (owned : Owned s h)
    (moved : step s a = some s') : Counted s' (g.after s a) := by
  cases a with
  | step t => exact counted.advance tracked owned moved
  | lock t self x =>
    simp only [Mutex.step] at moved
    split at moved
    next pc =>
      split at moved
      next => contradiction
      next free => cases moved; exact counted.construct tracked (by simpa using free) pc (by simp) rfl
    next => contradiction
  | wait t self x cv cond =>
    simp only [Mutex.step] at moved
    split at moved
    next pc =>
      split at moved
      next free => cases moved; exact counted.construct tracked free.2 pc (by simp) rfl
      next => contradiction
    next => contradiction
  | tryLock t =>
    simp only [Mutex.step] at moved
    split at moved
    next pc =>
      split at moved
      all_goals cases moved
      all_goals exact { counted with }
    next => contradiction
  | unlock t =>
    simp only [Mutex.step] at moved
    split at moved
    next pc =>
      split at moved
      next => cases moved; exact counted.stay pc rfl rfl rfl rfl rfl rfl (by simp) (by simp) (by simp [Pc.waking])
      next => contradiction
    next => contradiction
  | notifyOne t cv | notifyAll t cv =>
    simp only [Mutex.step] at moved
    split at moved
    next pc => cases moved; exact counted.stay pc rfl rfl rfl rfl rfl rfl (by simp) (by simp) (by simp [Pc.waking])
    next => contradiction
  | modify t shared =>
    simp only [Mutex.step] at moved
    split at moved
    next pc =>
      split at moved
      next => cases moved; exact { counted with }
      next => contradiction
    next => contradiction
  | spurious t =>
    simp only [Mutex.step] at moved
    split at moved
    next self state waker pc =>
      cases moved
      refine counted.stay pc rfl rfl rfl rfl rfl rfl (by simp) (by simp) fun a wakes => counted.woken t a ?_
      rw [pc]
      cases waker <;> exact wakes
    next => contradiction
  | exec x =>
    cases queue : s.contexts.taskQueue x with
    | nil => simp [Mutex.step,queue] at moved
    | cons front rest =>
      simp only [Mutex.step,queue] at moved
      cases pc : s.pc front with
      | suspended self =>
        simp only [pc,Option.some.injEq] at moved
        subst moved
        simp only [Lists.after,queue,pc]
        exact counted.exec tracked queue pc
      | _ => simp [pc] at moved

end
end TinyCoro.Mutex
