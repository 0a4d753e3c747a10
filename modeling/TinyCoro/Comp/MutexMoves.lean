import TinyCoro.Comp.MutexLists

/-! Every step of the mutex and the condition variables keeps the lists and moves
an awaiter from one place to the next. -/
namespace TinyCoro.Mutex
open Library

variable {Coro Ctx Cv Shared : Type} [DecidableEq Coro] [DecidableEq Ctx] [DecidableEq Cv]

structure Tracked (s : State Coro Ctx Cv Shared) (g : Lists Coro Cv) : Prop where
  placed : Placed s g.place
  linked : Linked s g

section
variable {s s' : State Coro Ctx Cv Shared} {h : Holder Coro} {g : Lists Coro Cv} {t : Coro}

omit [DecidableEq Ctx] [DecidableEq Cv] in
theorem Linked.detached (linked : Linked s g) {p : Pc Cv} (same : p.detached = (s.pc t).detached) (u : Coro) :
    Chain s.next (Function.update s.pc t p u).detached (g.snapshot u) := by
  have chain := linked.snapshot u
  by_cases mine : u = t
  · rw [mine,Function.update_self,same,← mine]
    exact chain
  · rwa [Function.update_of_ne mine]

omit [DecidableEq Ctx] [DecidableEq Cv] in
/-- No other thread turns a list around, nor does this one afterwards. -/
theorem quiet_of_alone {p : Pc Cv} (alone : ∀ u, u ≠ t → (s.pc u).reversing = false ∧ (s.pc u).refilling = false)
    (reversing : p.reversing = false) (refilling : p.refilling = false) (u : Coro) :
    (Function.update s.pc t p u).reversing = false ∧ (Function.update s.pc t p u).refilling = false := by
  by_cases mine : u = t
  · rw [mine,Function.update_self]
    exact ⟨reversing,refilling⟩
  · rw [Function.update_of_ne mine]
    exact alone u mine

omit [DecidableEq Coro] [DecidableEq Ctx] [DecidableEq Cv] in
theorem Placed.calls {place : Addr → Place Coro Cv} (placed : Placed s place) {p : Pc Cv}
    (frame : p.frame = (s.pc t).frame) (holding : (s.pc t).holding = true) (a : Addr) (f : Frame Cv)
    (here : p.frame = some (.resume a f)) (_ : p.holding = true) : s.live a = true :=
  placed.behalf t a f (frame ▸ here) holding

omit [DecidableEq Ctx] [DecidableEq Cv] in
theorem Tracked.goto (tracked : Tracked s g) {p : Pc Cv} (pc : s'.pc = Function.update s.pc t p)
    (live : s'.live = s.live) (awaitCoro : s'.awaitCoro = s.awaitCoro) (ctx : s'.ctx = s.ctx) (kind : s'.kind = s.kind)
    (queue : s'.contexts.taskQueue = s.contexts.taskQueue) (state : s'.state.next = s.state.next)
    (resumeListHead : s'.resumeListHead = s.resumeListHead) (head : s'.head = s.head) (tail : s'.tail = s.tail)
    (next : ∀ a, (s.pc t).hand ≠ some a → s'.next a = s.next a) (running : ∀ a, s.pc t ≠ .suspended a)
    (self : p.self = (s.pc t).self) (hand : p.hand = (s.pc t).hand) (detached : p.detached = (s.pc t).detached)
    (reversing : p.reversing = false) (before : (s.pc t).reversing = false)
    (refilling : p.refilling = true → s.resumeListHead = none)
    (registering : ∀ a k f, p.registering = some (a,k,f) → (∃ c, s.kind a = .wait k c) ∧
      (f = .awaitSuspend a ∨ ∃ f', f = .resume a f'))
    (waker : ∀ f, p.waker = some f → f.outer = true)
    (behalf : ∀ a f, p.frame = some (.resume a f) → p.holding = true → s.live a = true)
    (written : ∀ a n, p.written = some (a,n) → s'.next a = n) : Tracked s' g := by
  obtain ⟨placed,linked⟩ := tracked
  constructor
  · refine placed.goto pc live awaitCoro ctx kind queue self running ?_ (fun _ _ _ => Iff.rfl) (fun _ => Iff.rfl)
      (fun _ => Iff.rfl) (fun _ _ => .inl) registering waker behalf written ?_
    · rw [hand]; exact placed.hand t
    · refine fun u a other here => next a fun mine => other ?_
      exact Place.hand.inj (here.symm.trans ((placed.hand t a).mp mine))
  · refine linked.goto pc state resumeListHead head tail ?_ (fun _ => .inl rfl) detached reversing before refilling
    refine fun a inside => next a fun mine => ?_
    rw [(placed.hand t a).mp mine] at inside
    contradiction

omit [DecidableEq Ctx] [DecidableEq Cv] in
theorem Tracked.quiet (tracked : Tracked s g) {p q : Pc Cv} (before : s.pc t = q)
    (pc : s'.pc = Function.update s.pc t p) (live : s'.live = s.live) (awaitCoro : s'.awaitCoro = s.awaitCoro)
    (ctx : s'.ctx = s.ctx) (kind : s'.kind = s.kind) (queue : s'.contexts.taskQueue = s.contexts.taskQueue)
    (state : s'.state.next = s.state.next)
    (resumeListHead : s'.resumeListHead = s.resumeListHead) (head : s'.head = s.head) (tail : s'.tail = s.tail)
    (next : ∀ a, q.hand ≠ some a → s'.next a = s.next a) (running : ∀ a, q ≠ .suspended a)
    (self : p.self = q.self) (hand : p.hand = q.hand) (detached : p.detached = q.detached)
    (reversing : p.reversing = false) (turning : q.reversing = false)
    (refilling : p.refilling = true → s.resumeListHead = none)
    (registering : p.registering = none ∨ p.registering = q.registering) (waker : p.waker = none ∨ p.waker = q.waker)
    (calls : p.frame = none ∨ p.holding = false ∨ p.frame = q.frame ∧ (q.holding = true ∨ q.frame = q.waker))
    (written : ∀ a n, p.written = some (a,n) → s'.next a = n) : Tracked s' g := by
  subst before
  refine tracked.goto pc live awaitCoro ctx kind queue state resumeListHead head tail next running self hand detached
    reversing turning refilling ?_ ?_ ?_ written
  · intro a k f here
    rcases registering with none | same
    · rw [none] at here; contradiction
    · exact tracked.placed.registering t a k f (same ▸ here)
  · intro f here
    rcases waker with none | same
    · rw [none] at here; contradiction
    · exact tracked.placed.waker t f (same ▸ here)
  · intro a f here holds
    rcases calls with none | outside | ⟨same,inside | woken⟩
    · rw [none] at here; contradiction
    · rw [outside] at holds; contradiction
    · exact tracked.placed.behalf t a f (same ▸ here) inside
    · have outer := tracked.placed.waker t (.resume a f) (by rw [← woken,← same,here])
      contradiction

omit [DecidableEq Ctx] [DecidableEq Cv] in
theorem Tracked.enqueue (tracked : Tracked s g) {self : Addr} {head : Option Addr} {p : Pc Cv}
    (written : (s.pc t).written = some (self,head)) (state : s.state = .locked head)
    (same : p.self = (s.pc t).self) (hand : p.hand = none) (detached : p.detached = (s.pc t).detached)
    (reversing : p.reversing = false) (before : (s.pc t).reversing = false) (refilling : p.refilling = false)
    (registering : p.registering = none) (waker : p.waker = none) (frame : p.frame = none) (writes : p.written = none)
    (running : ∀ a, s.pc t ≠ .suspended a) :
    Tracked { s.goto t p with state := .locked (some self) }
      { g with chain := self::g.chain, place := Function.update g.place self .state } := by
  obtain ⟨placed,linked⟩ := tracked
  have mine := hand_of_written written
  have place := (placed.hand t self).mp mine
  have below : Chain s.next (s.next self) g.chain := by
    rw [placed.written t self head written]
    simpa [state,AwaiterPtr.next] using linked.chain
  constructor
  · exact placed.puts rfl rfl rfl rfl rfl rfl same running mine rfl (by simp) hand (by simp [registering]) waker (by simp [frame])
      writes fun _ _ _ _ => rfl
  · refine linked.relist (t := t) rfl rfl (fun _ _ => rfl) rfl (place_elsewhere (by simp [place]) (by simp)) reversing before
      refilling ?_ ?_ linked.waiting ?_ linked.tail (linked.detached detached) ?_
    · exact ⟨rfl,below⟩
    · exact fun a => List.mem_cons.trans (member_added linked.inChain a)
    · exact fun k => member_elsewhere (linked.inWaiting k) (by simp [place]) (by simp)
    · exact fun u => member_elsewhere (linked.inSnapshot u) (by simp [place]) (by simp)

omit [DecidableEq Ctx] [DecidableEq Cv] in
theorem Tracked.pop (tracked : Tracked s g) {toResume : Addr} {caller : Frame Cv}
    (first : Chain s.next (some toResume) g.ready) (bare : (s.pc t).hand = none) (holding : (s.pc t).holding = true)
    (frame : (s.pc t).frame = some caller) (same : caller.self = (s.pc t).self)
    (detached : caller.detached = (s.pc t).detached)
    (running : ∀ a, s.pc t ≠ .suspended a)
    (alone : ∀ u, u ≠ t → (s.pc u).reversing = false ∧ (s.pc u).refilling = false) :
    Tracked { s.goto t (.resume toResume caller) with resumeListHead := s.next toResume }
      { g with ready := g.ready.tail, place := Function.update g.place toResume (.hand t) } := by
  obtain ⟨placed,linked⟩ := tracked
  obtain ⟨rest,order,tail⟩ := Chain.some_iff.mp first
  have place : g.place toResume = .resumeList := (linked.inReady toResume).mp (by simp [order])
  have distinct := linked.readyNodup
  have ready := linked.inReady
  have quiet := quiet_of_alone (p := .resume toResume caller) alone rfl rfl
  rw [order] at distinct ready
  obtain ⟨absent,distinct⟩ := List.nodup_cons.mp distinct
  constructor
  · exact placed.takes rfl rfl rfl rfl rfl rfl rfl same running (by rw [place]; rfl) bare rfl rfl (by simp [Pc.waker])
      (placed.calls frame.symm holding) rfl
  · simp only [State.goto,order,List.tail_cons]
    constructor
    case chain => exact linked.chain
    case inChain => exact member_elsewhere linked.inChain (by simp [place]) (by simp)
    case inReady => exact member_removed ready absent (by simp)
    case readyNodup => exact distinct
    case resumeList => exact fun _ => tail
    case reverse =>
      intro u w acc f here
      dsimp only at here
      have still := (quiet u).1
      rw [here] at still
      contradiction
    case pop =>
      intro u x f here
      dsimp only at here
      have still := (quiet u).1
      rw [here] at still
      contradiction
    case refilling =>
      intro u here
      have still := (quiet u).2
      rw [here] at still
      contradiction
    case waiting => exact linked.waiting
    case inWaiting => exact fun k => member_elsewhere (linked.inWaiting k) (by simp [place]) (by simp)
    case tail => exact linked.tail
    case snapshot => exact linked.detached detached
    case inSnapshot => exact fun u => member_elsewhere (linked.inSnapshot u) (by simp [place]) (by simp)

omit [DecidableEq Ctx] in
theorem Tracked.exchange (tracked : Tracked s g) {awaiter : Addr} {caller : Frame Cv}
    (pc : s.pc t = .unlockExchange caller) (state : s.state = .locked (some awaiter))
    (alone : ∀ u, u ≠ t → (s.pc u).reversing = false ∧ (s.pc u).refilling = false) :
    Tracked { s.goto t (.unlockReverse awaiter none caller) with state := lockedNoWaiting }
      { g with
        chain := []
        ready := g.chain.reverse
        place := fun a => if g.place a = .state then .resumeList else g.place a } := by
  obtain ⟨placed,linked⟩ := tracked
  have quiet : ∀ u, (s.pc u).reversing = false := by
    intro u
    by_cases mine : u = t
    · rw [mine,pc]; rfl
    · exact (alone u mine).1
  have bare : g.ready = [] := by
    have whole := linked.resumeList quiet
    rwa [linked.refilling t (by rw [pc]; rfl),Chain.none_iff] at whole
  have distinct := linked.chain.nodup
  have first : Chain s.next (some awaiter) g.chain := by simpa [state,AwaiterPtr.next] using linked.chain
  have lone : ∀ u, u ≠ t → Function.update s.pc t (.unlockReverse awaiter none caller) u = s.pc u := fun u other =>
    Function.update_of_ne other ..
  constructor
  · exact placed.relists rfl rfl rfl rfl rfl rfl rfl (by rw [pc]; rfl) (by simp [pc]) rfl rfl (by simp) (by rw [pc]; rfl) rfl rfl
      (placed.calls (by rw [pc]; rfl) (by rw [pc]; rfl)) rfl
  · simp only [State.goto]
    constructor
    case chain => simp [lockedNoWaiting,AwaiterPtr.next]
    case inChain =>
      intro a
      refine iff_of_false List.not_mem_nil ?_
      dsimp only
      split
      next => simp
      next other => exact other
    case inReady =>
      intro a
      dsimp only
      rw [List.mem_reverse,linked.inChain]
      split
      next here => exact iff_of_true here rfl
      next other =>
        refine iff_of_false other fun ready => ?_
        have member := (linked.inReady a).mpr ready
        rw [bare] at member
        contradiction
    case readyNodup => exact List.nodup_reverse.mpr distinct
    case resumeList =>
      intro still
      have mine := still t
      simp [Pc.reversing] at mine
    case reverse =>
      intro u w acc f here
      dsimp only at here ⊢
      by_cases mine : u = t
      · subst mine
        rw [Function.update_self] at here
        cases here
        exact ⟨g.chain,[],first,rfl,(List.append_nil _).symm⟩
      · have still := quiet u
        rw [← lone u mine,here] at still
        contradiction
    case pop =>
      intro u x f here
      dsimp only at here
      by_cases mine : u = t
      · rw [mine,Function.update_self] at here
        contradiction
      · have still := quiet u
        rw [← lone u mine,here] at still
        contradiction
    case refilling => exact fun _ _ => linked.refilling t (by rw [pc]; rfl)
    case waiting => exact linked.waiting
    case inWaiting => exact fun k => member_moved (linked.inWaiting k) (by simp) (by simp)
    case tail => exact linked.tail
    case snapshot => exact linked.detached (by rw [pc]; rfl)
    case inSnapshot => exact fun u => member_moved (linked.inSnapshot u) (by simp) (by simp)

omit [DecidableEq Ctx] [DecidableEq Cv] in
/-- One round of the loop that turns the detached chain around. -/
theorem Tracked.turn (tracked : Tracked s g) {awaiter : Addr} {toResume : Option Addr} {caller : Frame Cv}
    (pc : s.pc t = .unlockReverse awaiter toResume caller)
    (alone : ∀ u, u ≠ t → (s.pc u).reversing = false ∧ (s.pc u).refilling = false) :
    Tracked { s.goto t (match s.next awaiter with
        | none => .unlockPop awaiter caller
        | some temp => .unlockReverse temp (some awaiter) caller) with
      next := Function.update s.next awaiter toResume } g := by
  obtain ⟨placed,linked⟩ := tracked
  obtain ⟨left,turned,first,second,order⟩ := linked.reverse t awaiter toResume caller pc
  obtain ⟨rest,rfl,tail⟩ := Chain.some_iff.mp first
  have distinct : ((awaiter::rest).reverse ++ turned).Nodup := order ▸ linked.readyNodup
  have place : g.place awaiter = .resumeList := (linked.inReady awaiter).mp (by simp [order])
  obtain ⟨one,_,apart⟩ := List.nodup_append.mp distinct
  have notRest : awaiter ∉ rest := (List.nodup_cons.mp (List.nodup_reverse.mp one)).1
  have notTurned : awaiter ∉ turned := fun member => apart awaiter (by simp) awaiter member rfl
  have next : ∀ a, g.place a ≠ .resumeList → Function.update s.next awaiter toResume a = s.next a := by
    intro a other
    exact Function.update_of_ne (by rintro rfl; exact other place) ..
  have turns : Chain (Function.update s.next awaiter toResume) (some awaiter) (awaiter::turned) := by
    refine ⟨rfl,?_⟩
    rw [Function.update_self]
    exact (Chain.update_iff notTurned).mpr second
  have remains := (Chain.update_iff (q := toResume) notRest).mpr tail
  let p : Pc Cv := match s.next awaiter with
    | none => .unlockPop awaiter caller
    | some temp => .unlockReverse temp (some awaiter) caller
  have shape : p.self = caller.self ∧ p.hand = none ∧ p.frame = some caller ∧ p.detached = caller.detached ∧
      p.reversing = true ∧ p.registering = none ∧ p.waker = none ∧ p.written = none := by
    simp only [p]
    split <;> exact ⟨rfl,rfl,rfl,rfl,rfl,rfl,rfl,rfl⟩
  obtain ⟨self,hand,frame,detached,reversing,registering,waker,written⟩ := shape
  show Tracked { s.goto t p with next := Function.update s.next awaiter toResume } g
  constructor
  · refine placed.goto (t := t) rfl rfl rfl rfl rfl rfl (by rw [self,pc]; rfl) (by simp [pc]) ?_ ?_ ?_ ?_ ?_ ?_ ?_ ?_ ?_ ?_
    case refine_1 =>
      have none := placed.hand t
      rw [pc] at none
      rw [hand]
      exact none
    case refine_8 => exact placed.calls (by rw [pc,frame]; rfl) (by rw [pc]; rfl)
    case refine_10 => exact fun u a _ here => next a (by simp [here])
    case refine_2 => exact fun _ _ _ => Iff.rfl
    case refine_3 => exact fun _ => Iff.rfl
    case refine_4 => exact fun _ => Iff.rfl
    case refine_5 => exact fun _ _ => .inl
    case refine_6 => simp [registering]
    case refine_7 => simp [waker]
    case refine_9 => simp [written]
  · obtain ⟨chain,inChain,inReady,readyNodup,resumeList,reverse,pop,refills,waiting,inWaiting,last,snapshot,
      inSnapshot⟩ := linked
    simp only [State.goto]
    constructor
    case inChain => exact inChain
    case inReady => exact inReady
    case readyNodup => exact readyNodup
    case inWaiting => exact inWaiting
    case inSnapshot => exact inSnapshot
    case tail => exact last
    case chain =>
      exact (Chain.update_iff fun member => by rw [inChain,place] at member; contradiction).mpr chain
    case waiting =>
      exact fun k => (Chain.update_iff fun member => by rw [inWaiting,place] at member; contradiction).mpr (waiting k)
    case snapshot =>
      intro u
      refine (Chain.update_iff fun member => by rw [inSnapshot,place] at member; contradiction).mpr ?_
      have mine := snapshot u
      by_cases same : u = t
      · subst same
        rw [pc] at mine
        dsimp only
        rw [Function.update_self,detached]
        exact mine
      · simpa [same] using mine
    case resumeList =>
      intro still
      have mine := still t
      simp [reversing] at mine
    case refilling => exact fun u here => refills t (by rw [pc]; rfl)
    case reverse =>
      intro u w acc f here
      dsimp only at here ⊢
      by_cases mine : u = t
      · subst mine
        rw [Function.update_self] at here
        cases temp : s.next awaiter with
        | none => simp [p,temp] at here
        | some w' =>
          simp only [p,temp,Pc.unlockReverse.injEq] at here
          obtain ⟨rfl,rfl,rfl⟩ := here
          rw [temp] at remains
          exact ⟨rest,awaiter::turned,remains,turns,by simp [order]⟩
      · have := (alone u mine).1
        rw [Function.update_of_ne mine] at here
        simp [here,Pc.reversing] at this
    case pop =>
      intro u x f here
      dsimp only at here ⊢
      by_cases mine : u = t
      · subst mine
        rw [Function.update_self] at here
        cases temp : s.next awaiter with
        | some w' => simp [p,temp] at here
        | none =>
          simp only [p,temp,Pc.unlockPop.injEq] at here
          obtain ⟨rfl,rfl⟩ := here
          rw [temp,Chain.none_iff] at tail
          simpa [order,tail] using turns
      · have := (alone u mine).1
        rw [Function.update_of_ne mine] at here
        simp [here,Pc.reversing] at this

theorem Tracked.link (tracked : Tracked s g) {self : Addr} {cv : Cv} {caller : Frame Cv}
    (pc : s.pc t = .cvLink self cv caller) (moved : advance s t = some s') :
    Tracked s' { g with
      waiting := Function.update g.waiting cv (g.waiting cv ++ [self])
      place := Function.update g.place self (.cv cv) } := by
  obtain ⟨placed,linked⟩ := tracked
  have mine : g.place self = .hand t := (placed.hand t self).mp (by rw [pc]; rfl)
  have ends : s.next self = none := placed.written t self none (by rw [pc]; rfl)
  obtain ⟨wait,frame⟩ := placed.registering t self cv caller (by rw [pc]; rfl)
  have absent : self ∉ g.waiting cv := by rw [linked.inWaiting,mine]; simp
  have before : (s.pc t).reversing = false := by rw [pc]; rfl
  -- the list with the new node, for both branches of `register_cv`
  have grown : ∃ next head, (∀ a, s.tail cv ≠ some a → next a = s.next a) ∧
      Chain next (head cv) (g.waiting cv ++ [self]) ∧ (∀ k, k ≠ cv → head k = s.head k) ∧
      s' = { s.goto t (.cvUnlock self cv caller) with
        next := next
        head := head
        tail := Function.update s.tail cv (some self)
        registrations := Function.update s.registrations cv (s.registrations cv ++ [self]) } := by
    have chain := linked.waiting cv
    have last := linked.tail cv
    simp only [Mutex.advance,pc] at moved
    split at moved
    next none =>
      cases moved
      rw [none,eq_comm,List.getLast?_eq_none_iff] at last
      refine ⟨s.next,Function.update s.head cv (some self),fun _ _ => rfl,?_,fun k other => Function.update_of_ne other ..,rfl⟩
      simp [last,ends]
    next tail some =>
      cases moved
      rw [some,eq_comm,List.getLast?_eq_some_iff] at last
      obtain ⟨before,order⟩ := last
      refine ⟨Function.update s.next tail (.some self),s.head,?_,?_,fun _ _ => rfl,rfl⟩
      · exact fun a other => Function.update_of_ne (by rintro rfl; exact other some) ..
      · rw [order] at chain absent ⊢
        exact chain.append_single absent ends
  obtain ⟨next,head,same,chain,heads,rfl⟩ := grown
  have tails : ∀ a, s.tail cv = some a → g.place a = .cv cv := by
    intro a here
    rw [linked.tail cv] at here
    exact (linked.inWaiting cv a).mp (List.mem_of_getLast? here)
  have outside : ∀ a, g.place a ≠ .cv cv → next a = s.next a := by
    intro a other
    exact same a fun last => other (tails a last)
  have keeps : ∀ p l, (∀ a ∈ l, g.place a ≠ .cv cv) → Chain s.next p l → Chain next p l := by
    exact fun p l others => (Chain.congr fun a member => (outside a (others a member)).symm).mp
  constructor
  · refine placed.puts rfl rfl rfl rfl rfl rfl (by rw [pc]; rfl) (by simp [pc]) (by rw [pc]; rfl) rfl ?_ rfl ?_ rfl ?_ rfl ?_
    · rintro k ⟨⟩
      exact wait
    · rintro a k f ⟨⟩
      exact ⟨wait,frame⟩
    · exact placed.calls (by rw [pc]; rfl) (by rw [pc]; rfl)
    · exact fun u a _ here => outside a (by simp [here])
  · refine linked.relist (t := t) rfl rfl (fun a here => outside a (by simp [here])) rfl
      (place_elsewhere (by simp [mine]) (by simp)) rfl before rfl ?_ ?_ ?_ ?_ ?_ ?_ ?_
    · exact keeps _ _ (fun a member => by rw [(linked.inChain a).mp member]; simp) linked.chain
    · exact member_elsewhere linked.inChain (by simp [mine]) (by simp)
    · intro k
      by_cases this : k = cv
      · subst this
        simpa using chain
      · dsimp only
        rw [heads k this,Function.update_of_ne this]
        exact keeps _ _ (fun a member => by rw [(linked.inWaiting k a).mp member]; simpa using this) (linked.waiting k)
    · intro k a
      dsimp only
      by_cases this : k = cv
      · rw [this,Function.update_self,List.mem_append,List.mem_singleton,or_comm]
        exact member_added (linked.inWaiting cv) a
      · rw [Function.update_of_ne this]
        exact member_elsewhere (linked.inWaiting k) (by simp [mine]) (by simpa using Ne.symm this) a
    · intro k
      dsimp only
      by_cases this : k = cv
      · rw [this,Function.update_self,Function.update_self,List.getLast?_concat]
      · rw [Function.update_of_ne this,Function.update_of_ne this]
        exact linked.tail k
    · exact fun u => keeps _ _ (fun a member => by rw [(linked.inSnapshot u a).mp member]; simp)
        (linked.detached (by rw [pc]; rfl) u)
    · exact fun u => member_elsewhere (linked.inSnapshot u) (by simp [mine]) (by simp)

omit [DecidableEq Ctx] in
theorem Tracked.takeOne (tracked : Tracked s g) {cv : Cv} {cur : Addr} (pc : s.pc t = .oneTake cv)
    (head : s.head cv = some cur) :
    Tracked { s.goto t (.oneUnlock cv (some cur)) with
        head := Function.update s.head cv (s.next cur)
        tail := Function.update s.tail cv (if s.next cur = none then none else s.tail cv)
        taken := Function.update s.taken cv (s.taken cv + 1) }
      { g with
        waiting := Function.update g.waiting cv (g.waiting cv).tail
        place := Function.update g.place cur (.hand t) } := by
  obtain ⟨placed,linked⟩ := tracked
  have chain := linked.waiting cv
  have tail := linked.tail cv
  rw [head] at chain
  obtain ⟨rest,order,behind⟩ := Chain.some_iff.mp chain
  have distinct := chain.nodup
  have place : g.place cur = .cv cv := (linked.inWaiting cv cur).mp (by simp [order])
  have last : (if s.next cur = .none then .none else s.tail cv) = rest.getLast? := by
    cases rest with
    | nil => simp [Chain.nil_iff.mp behind]
    | cons b more => simp [behind.1,tail,order]
  rw [order,List.nodup_cons] at distinct
  have removed := linked.inWaiting cv
  rw [order] at removed
  constructor
  · exact placed.takes rfl rfl rfl rfl rfl rfl rfl (by rw [pc]; rfl) (by simp [pc]) (by rw [place]; rfl) (by rw [pc]; rfl) rfl rfl
      (by simp [Pc.waker]) (by simp [Pc.frame]) rfl
  · refine linked.relist (t := t) rfl rfl (fun _ _ => rfl) rfl (place_elsewhere (by simp [place]) (by simp)) rfl
      (by rw [pc]; rfl) rfl linked.chain ?_ ?_ ?_ ?_ (linked.detached (by rw [pc]; rfl)) ?_
    · exact member_elsewhere linked.inChain (by simp [place]) (by simp)
    · intro k
      by_cases this : k = cv
      · subst this
        simpa [State.goto,order] using behind
      · simpa [State.goto,this] using linked.waiting k
    · intro k a
      dsimp only
      by_cases this : k = cv
      · rw [this,Function.update_self,order,List.tail_cons]
        exact member_removed removed distinct.1 (by simp) a
      · rw [Function.update_of_ne this]
        exact member_elsewhere (linked.inWaiting k) (by simpa [place] using Ne.symm this) (by simp) a
    · intro k
      by_cases this : k = cv
      · subst this
        simpa [order] using last
      · simpa [this] using linked.tail k
    · exact fun u => member_elsewhere (linked.inSnapshot u) (by simp [place]) (by simp)

omit [DecidableEq Ctx] in
theorem Tracked.takeAll (tracked : Tracked s g) {cv : Cv} (pc : s.pc t = .allTake cv) :
    Tracked { s.goto t (.allUnlock cv (s.head cv)) with
        head := Function.update s.head cv none
        tail := Function.update s.tail cv none
        taken := Function.update s.taken cv (s.registrations cv).length }
      { g with
        waiting := Function.update g.waiting cv []
        snapshot := Function.update g.snapshot t (g.waiting cv)
        place := fun a => if g.place a = .cv cv then .snapshot t else g.place a } := by
  obtain ⟨placed,linked⟩ := tracked
  have bare : g.snapshot t = [] := by
    have mine := linked.snapshot t
    rw [pc] at mine
    exact Chain.none_iff.mp mine
  constructor
  · exact placed.relists rfl rfl rfl rfl rfl rfl rfl (by rw [pc]; rfl) (by simp [pc]) rfl rfl (by simp) (by rw [pc]; rfl) rfl rfl
      (by simp [Pc.frame]) rfl
  · refine linked.relist (t := t) rfl rfl (fun _ _ => rfl) rfl (place_moved (by simp) (by simp)) rfl (by rw [pc]; rfl) rfl
      linked.chain (member_moved linked.inChain (by simp) (by simp)) ?_ ?_ ?_ ?_ ?_
    · intro k
      by_cases this : k = cv
      · subst this; simp
      · simpa [State.goto,this] using linked.waiting k
    · intro k a
      dsimp only
      by_cases this : k = cv
      · rw [this,Function.update_self]
        refine iff_of_false List.not_mem_nil ?_
        split
        next => simp
        next other => exact other
      · rw [Function.update_of_ne this]
        exact member_moved (linked.inWaiting k) (by simpa using Ne.symm this) (by simp) a
    · intro k
      by_cases this : k = cv
      · subst this; simp
      · simpa [this] using linked.tail k
    · intro u
      by_cases this : u = t
      · subst this
        simp only [State.goto,Function.update_self]
        exact linked.waiting cv
      · simpa [State.goto,this] using linked.snapshot u
    · intro u a
      dsimp only
      by_cases this : u = t
      · rw [this,Function.update_self,linked.inWaiting]
        split
        next here => exact iff_of_true here rfl
        next other =>
          refine iff_of_false other fun here => ?_
          have member := (linked.inSnapshot t a).mpr here
          rw [bare] at member
          contradiction
      · rw [Function.update_of_ne this]
        exact member_moved (linked.inSnapshot u) (by simp) (by simpa using Ne.symm this) a

omit [DecidableEq Ctx] [DecidableEq Cv] in
/-- The loop of `notify_all` goes on with the next awaiter of its list. -/
theorem Tracked.takeNext (tracked : Tracked s g) {cv : Cv} {curHead : Addr} (pc : s.pc t = .allLoop cv (some curHead)) :
    Tracked (s.goto t (.loadState curHead (some (.notifyAll cv (s.next curHead)))))
      { g with
        snapshot := Function.update g.snapshot t (g.snapshot t).tail
        place := Function.update g.place curHead (.hand t) } := by
  obtain ⟨placed,linked⟩ := tracked
  have chain : Chain s.next (some curHead) (g.snapshot t) := by
    have mine := linked.snapshot t
    rwa [pc] at mine
  obtain ⟨rest,order,behind⟩ := Chain.some_iff.mp chain
  have distinct := chain.nodup
  have place : g.place curHead = .snapshot t := (linked.inSnapshot t curHead).mp (by simp [order])
  rw [order,List.nodup_cons] at distinct
  have removed := linked.inSnapshot t
  rw [order] at removed
  constructor
  · refine placed.takes rfl rfl rfl rfl rfl rfl rfl (by rw [pc]; rfl) (by simp [pc]) (by rw [place]; rfl) (by rw [pc]; rfl) rfl rfl
      ?_ ?_ rfl
    · rintro f ⟨⟩
      rfl
    · rintro a f ⟨⟩
  · refine linked.relist (t := t) rfl rfl (fun _ _ => rfl) rfl (place_elsewhere (by simp [place]) (by simp)) rfl
      (by rw [pc]; rfl) rfl linked.chain ?_ linked.waiting ?_ linked.tail ?_ ?_
    · exact member_elsewhere linked.inChain (by simp [place]) (by simp)
    · exact fun k => member_elsewhere (linked.inWaiting k) (by simp [place]) (by simp)
    · intro u
      by_cases this : u = t
      · subst this
        simp only [State.goto,Function.update_self,order]
        exact behind
      · simpa [State.goto,this] using linked.snapshot u
    · intro u a
      dsimp only
      by_cases this : u = t
      · rw [this,Function.update_self,order,List.tail_cons]
        exact member_removed removed distinct.1 (by simp) a
      · rw [Function.update_of_ne this]
        exact member_elsewhere (linked.inSnapshot u) (by simpa [place] using Ne.symm this) (by simp) a

omit [DecidableEq Cv] in
theorem Tracked.submit (tracked : Tracked s g) (owned : Owned s h) {self : Addr} {caller : Frame Cv}
    (pc : s.pc t = .submitTask self caller) :
    Tracked { s.goto t caller.finish with
        contexts := s.contexts.submitTask (s.ctx self) (s.awaitCoro self)
        submissions := Function.update s.submissions self (s.submissions self + 1) }
      { g with place := Function.update g.place self .submitted } := by
  obtain ⟨placed,linked⟩ := tracked
  have holding : (s.pc t).holding = true := by rw [pc]; rfl
  have mine : g.place self = .hand t := (placed.hand t self).mp (by rw [pc]; rfl)
  have inHand : (s.pc t).hand = some self := by rw [pc]; rfl
  have live : s.live self = true := placed.live_of_hand (t := t) (by rw [pc]; rfl)
  have frame := placed.self self live
  obtain ⟨_,_,empty⟩ := owned.acting holding
  -- its coroutine is suspended, or it is this thread and is about to return to its `await_suspend`
  have waits : Function.update s.pc t caller.finish (s.awaitCoro self) = .suspended self := by
    by_cases same : s.awaitCoro self = t
    · rw [same,pc] at frame
      rw [same,Function.update_self]
      exact finish_suspended _ frame
    · rw [Function.update_of_ne same]
      refine suspended_of_self frame ?_ ?_ (placed.waker _)
      · intro theirs
        exact same (Place.hand.inj (((placed.hand _ _).mp theirs).symm.trans mine))
      · by_contra theirs
        exact same (owned.alone (by simpa using theirs) holding)
  constructor
  · refine placed.moves rfl rfl rfl rfl (by rw [pc,finish_self]; rfl) (placed.hand_left inHand (finish_hand _) (by simp)) ?_ ?_ ?_
      (by simp) (by simp) (by simp) (by simp) (fun _ _ _ _ => rfl) ?_ ?_
    · refine fun u other => place_elsewhere ?_ (by simp)
      rw [mine]
      exact fun same => other (Place.hand.inj same).symm
    · exact place_elsewhere (by simp [mine]) (by simp)
    · exact fun b k here => .inl ((place_elsewhere (by simp [mine]) (by simp) b).mp here)
    · intro a here
      dsimp only at here ⊢
      by_cases this : a = self
      · subst this
        exact ⟨waits,s.ctx a,Contexts.mem_submitTask.mpr (.inr ⟨rfl,rfl⟩)⟩
      · rw [Function.update_of_ne this] at here
        obtain ⟨_,x,member⟩ := placed.submitted a here
        rw [empty] at member
        contradiction
    · intro u x member
      rcases Contexts.mem_submitTask.mp member with old | ⟨rfl,rfl⟩
      · rw [empty] at old
        contradiction
      · exact ⟨self,Function.update_self ..,rfl,rfl⟩
  · refine linked.goto (t := t) rfl rfl rfl rfl rfl (fun _ _ => rfl) ?_ ?_ (finish_reversing _) ?_ ?_
    · intro a
      by_cases this : a = self
      · subst this
        exact .inr ⟨by rw [Function.update_self]; rfl,by rw [mine]; rfl⟩
      · exact .inl (Function.update_of_ne this ..)
    · rw [pc,finish_detached]; rfl
    · rw [pc]; rfl
    · simp

omit [DecidableEq Ctx] [DecidableEq Cv] in
theorem Tracked.construct (tracked : Tracked s g) {self : Addr} {x : Ctx} {kind : Kind Cv Shared} {p : Pc Cv}
    {owns : Coro → Bool} (free : s.live self = false) (pc : s.pc t = .idle) (same : p.self = some self)
    (hand : p.hand = some self) (frame : p.frame = none) (written : p.written = none) (reversing : p.reversing = false)
    (refilling : p.refilling = false) (registering : p.registering = none) (waker : p.waker = none)
    (detached : p.detached = none) :
    Tracked { (s.construct t self x kind).goto t p with owns := owns }
      { g with place := Function.update g.place self (.hand t) } := by
  obtain ⟨placed,linked⟩ := tracked
  have gone := (placed.gone self).mpr free
  have bare : (s.pc t).hand = none := by rw [pc]; rfl
  have alive : ∀ b, s.live b = true → b ≠ self := by
    rintro b lives rfl
    rw [free] at lives
    contradiction
  have idle : ∀ u b, (s.pc u).self = some b → u ≠ t := by
    rintro u b here rfl
    rw [pc] at here
    contradiction
  constructor
  · simp only [State.goto,State.construct]
    constructor
    case live =>
      intro u b here
      dsimp only at here ⊢
      by_cases this : u = t
      · rw [this,Function.update_self,same,Option.some.injEq] at here
        rw [← here,this,Function.update_self,Function.update_self]
        exact ⟨rfl,rfl⟩
      · rw [Function.update_of_ne this] at here
        obtain ⟨lives,mine⟩ := placed.live u b here
        rw [Function.update_of_ne (alive b lives),Function.update_of_ne (alive b lives)]
        exact ⟨lives,mine⟩
    case self =>
      intro b lives
      dsimp only at lives ⊢
      by_cases this : b = self
      · rw [this,Function.update_self,Function.update_self]
        exact same
      · rw [Function.update_of_ne this] at lives ⊢
        have here := placed.self b lives
        rw [Function.update_of_ne (idle _ b here)]
        exact here
    case gone =>
      intro b
      dsimp only
      by_cases this : b = self
      · rw [this,Function.update_self,Function.update_self]
        simp
      · rw [Function.update_of_ne this,Function.update_of_ne this]
        exact placed.gone b
    case hand =>
      intro u b
      dsimp only
      by_cases this : u = t
      · rw [this,Function.update_self]
        exact placed.hand_taken bare hand b
      · rw [Function.update_of_ne this,placed.hand u b]
        exact (place_elsewhere (by simp [gone]) (by simpa using Ne.symm this) b).symm
    case submitted =>
      intro b here
      dsimp only at here ⊢
      have other : b ≠ self := by rintro rfl; rw [Function.update_self] at here; contradiction
      rw [Function.update_of_ne other] at here ⊢
      obtain ⟨waits,queued⟩ := placed.submitted b here
      rw [Function.update_of_ne (idle _ b (by rw [waits]; rfl))]
      exact ⟨waits,queued⟩
    case queued =>
      intro u x member
      obtain ⟨a,place,coro,owner⟩ := placed.queued u x member
      have other : a ≠ self := by rintro rfl; rw [gone] at place; contradiction
      dsimp only
      refine ⟨a,?_,?_,?_⟩
      all_goals rwa [Function.update_of_ne other]
    case kind =>
      intro b k here
      dsimp only at here ⊢
      have other : b ≠ self := by rintro rfl; rw [Function.update_self] at here; contradiction
      rw [Function.update_of_ne other] at here ⊢
      exact placed.kind b k here
    case registering =>
      intro u a k f here
      dsimp only at here ⊢
      by_cases this : u = t
      · rw [this,Function.update_self,registering] at here
        contradiction
      · rw [Function.update_of_ne this] at here
        obtain ⟨wait,shape⟩ := placed.registering u a k f here
        obtain ⟨frames,holds⟩ := frame_of_registering here
        have lives : s.live a = true := by
          rcases shape with rfl | ⟨f',rfl⟩
          · exact (placed.live u a (self_of_registering here)).1
          · exact placed.behalf u a f' frames holds
        rw [Function.update_of_ne (alive a lives)]
        exact ⟨wait,shape⟩
    case waker =>
      intro u f here
      dsimp only at here
      by_cases this : u = t
      · rw [this,Function.update_self,waker] at here
        contradiction
      · rw [Function.update_of_ne this] at here
        exact placed.waker u f here
    case behalf =>
      intro u a f here holds
      dsimp only at here holds ⊢
      by_cases this : u = t
      · rw [this,Function.update_self,frame] at here
        contradiction
      · rw [Function.update_of_ne this] at here holds
        have lives := placed.behalf u a f here holds
        rw [Function.update_of_ne (alive a lives)]
        exact lives
    case written =>
      intro u a v here
      dsimp only at here ⊢
      by_cases this : u = t
      · rw [this,Function.update_self,written] at here
        contradiction
      · rw [Function.update_of_ne this] at here
        have theirs := placed.live_of_hand (hand_of_written here)
        rw [Function.update_of_ne (alive a theirs)]
        exact placed.written u a v here
  · refine linked.goto (t := t) rfl rfl rfl rfl rfl ?_ ?_ (by rw [pc,detached]; rfl) reversing (by rw [pc]; rfl) (by simp [refilling])
    · intro a inside
      exact Function.update_of_ne (by rintro rfl; rw [gone] at inside; contradiction) ..
    · intro a
      by_cases this : a = self
      · subst this
        exact .inr ⟨by rw [Function.update_self]; rfl,by rw [gone]; rfl⟩
      · exact .inl (Function.update_of_ne this ..)

omit [DecidableEq Ctx] [DecidableEq Cv] in
theorem Tracked.destroy (tracked : Tracked s g) (owned : Owned s h) {self : Addr} {contexts : Contexts Ctx Coro}
    {owns : Coro → Bool} (pc : s.pc t = .awaitResume self) (queue : contexts.taskQueue = s.contexts.taskQueue) :
    Tracked { s.goto t .idle with
        contexts := contexts
        live := Function.update s.live self false
        owns := owns }
      { g with place := Function.update g.place self .gone } := by
  obtain ⟨placed,linked⟩ := tracked
  have holding : (s.pc t).holding = true := by rw [pc]; rfl
  have mine : g.place self = .hand t := (placed.hand t self).mp (by rw [pc]; rfl)
  have inHand : (s.pc t).hand = some self := by rw [pc]; rfl
  have frame : (s.pc t).self = some self := by rw [pc]; rfl
  have owner := (placed.live t self frame).2
  constructor
  · simp only [State.goto]
    constructor
    case live =>
      intro u b here
      dsimp only at here ⊢
      have other : u ≠ t := by rintro rfl; rw [Function.update_self] at here; contradiction
      rw [Function.update_of_ne other] at here
      obtain ⟨lives,theirs⟩ := placed.live u b here
      have apart : b ≠ self := by rintro rfl; exact other (theirs.symm.trans owner)
      rw [Function.update_of_ne apart]
      exact ⟨lives,theirs⟩
    case self =>
      intro b lives
      dsimp only at lives ⊢
      have apart : b ≠ self := by rintro rfl; rw [Function.update_self] at lives; contradiction
      rw [Function.update_of_ne apart] at lives
      have here := placed.self b lives
      have other : s.awaitCoro b ≠ t := by
        intro same
        rw [same,frame] at here
        exact apart (Option.some.inj here).symm
      rw [Function.update_of_ne other]
      exact here
    case gone =>
      intro b
      dsimp only
      by_cases this : b = self
      · rw [this,Function.update_self,Function.update_self]
        exact iff_of_true rfl rfl
      · rw [Function.update_of_ne this,Function.update_of_ne this]
        exact placed.gone b
    case hand =>
      intro u b
      dsimp only
      by_cases this : u = t
      · rw [this,Function.update_self]
        exact placed.hand_left inHand rfl (by simp) b
      · rw [Function.update_of_ne this,placed.hand u b]
        exact (place_elsewhere (by simpa [mine] using Ne.symm this) (by simp) b).symm
    case submitted =>
      intro a here
      dsimp only at here ⊢
      have other : a ≠ self := by rintro rfl; rw [Function.update_self] at here; contradiction
      rw [Function.update_of_ne other] at here
      obtain ⟨waits,queued⟩ := placed.submitted a here
      rw [queue,Function.update_of_ne (by rintro same; rw [same,pc] at waits; contradiction)]
      exact ⟨waits,queued⟩
    case queued =>
      intro u x member
      dsimp only at member ⊢
      rw [queue] at member
      obtain ⟨a,place,coro,owner⟩ := placed.queued u x member
      have other : a ≠ self := by rintro rfl; rw [mine] at place; contradiction
      exact ⟨a,by rw [Function.update_of_ne other]; exact place,coro,owner⟩
    case kind =>
      intro b k here
      dsimp only at here ⊢
      have other : b ≠ self := by rintro rfl; rw [Function.update_self] at here; contradiction
      rw [Function.update_of_ne other] at here
      exact placed.kind b k here
    case registering =>
      intro u a k f here
      dsimp only at here
      have other : u ≠ t := by rintro rfl; rw [Function.update_self] at here; contradiction
      rw [Function.update_of_ne other] at here
      exact placed.registering u a k f here
    case waker =>
      intro u f here
      dsimp only at here
      have other : u ≠ t := by rintro rfl; rw [Function.update_self] at here; contradiction
      rw [Function.update_of_ne other] at here
      exact placed.waker u f here
    case behalf =>
      intro u a f calls holds
      dsimp only at calls holds ⊢
      have other : u ≠ t := by rintro rfl; rw [Function.update_self] at holds; contradiction
      rw [Function.update_of_ne other] at holds
      exact absurd (owned.alone holds holding) other
    case written =>
      intro u a v here
      dsimp only at here ⊢
      have other : u ≠ t := by rintro rfl; rw [Function.update_self] at here; contradiction
      rw [Function.update_of_ne other] at here
      exact placed.written u a v here
  · refine linked.goto (t := t) rfl rfl rfl rfl rfl (fun _ _ => rfl) ?_ (by rw [pc]; rfl) rfl (by rw [pc]; rfl) (by simp [Pc.refilling])
    intro a
    by_cases this : a = self
    · subst this
      exact .inr ⟨by rw [Function.update_self]; rfl,by rw [mine]; rfl⟩
    · exact .inl (Function.update_of_ne this ..)

omit [DecidableEq Cv] in
theorem Tracked.exec (tracked : Tracked s g) (owned : Owned s h) {self : Addr} {x : Ctx} {rest : List Coro}
    (queue : s.contexts.taskQueue x = t::rest) (pc : s.pc t = .suspended self) :
    Tracked { s.goto t (.awaitResume self) with contexts := s.contexts.pop x rest }
      { g with place := Function.update g.place self (.hand t) } := by
  obtain ⟨placed,linked⟩ := tracked
  obtain ⟨_,rfl,empty⟩ := owned.handle queue
  obtain ⟨a,place,coro,_⟩ := placed.queued t x (by simp [queue])
  have same : a = self := by
    obtain ⟨waits,_⟩ := placed.submitted a place
    rw [coro,pc] at waits
    exact (Pc.suspended.inj waits).symm
  subst same
  have single : ∀ b, g.place b = .submitted → b = a := by
    intro b here
    obtain ⟨waits,y,member⟩ := placed.submitted b here
    have front : s.awaitCoro b = t := by
      by_cases this : y = x
      · subst this; simpa [queue] using member
      · rw [empty y this] at member; contradiction
    rw [front,pc] at waits
    exact (Pc.suspended.inj waits).symm
  constructor
  · refine placed.moves rfl rfl rfl rfl (by rw [pc]; rfl) (placed.hand_taken (by rw [pc]; rfl) rfl) ?_ ?_ ?_ (by simp [Pc.registering])
      (by simp [Pc.waker]) (by simp [Pc.frame]) (by simp [Pc.written]) (fun _ _ _ _ => rfl) ?_ ?_
    · exact fun u other => place_elsewhere (by simp [place]) (by simpa using Ne.symm other)
    · exact place_elsewhere (by simp [place]) (by simp)
    · exact fun b k here => .inl ((place_elsewhere (by simp [place]) (by simp) b).mp here)
    · intro b here
      dsimp only at here
      have other : b ≠ a := by rintro rfl; rw [Function.update_self] at here; contradiction
      rw [Function.update_of_ne other] at here
      exact absurd (single b here) other
    · intro u y member
      rcases Contexts.mem_pop.mp member with ⟨_,none⟩ | ⟨other,inside⟩
      · contradiction
      · rw [empty y other] at inside
        contradiction
  · refine linked.goto (t := t) rfl rfl rfl rfl rfl (fun _ _ => rfl) ?_ (by rw [pc]; rfl) rfl (by rw [pc]; rfl) (by simp [Pc.refilling])
    intro b
    by_cases this : b = a
    · subst this
      exact .inr ⟨by rw [Function.update_self]; rfl,by rw [place]; rfl⟩
    · exact .inl (Function.update_of_ne this ..)

end
end TinyCoro.Mutex
