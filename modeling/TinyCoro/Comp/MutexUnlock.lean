import TinyCoro.Comp.MutexFifo
import TinyCoro.Comp.CondVarReady

/-! One `unlock` from its call to its return while no other thread moves. It calls
itself through `cv_awaiter::resume` for every waiter whose predicate is false. -/
namespace TinyCoro.Mutex
open Library

variable {Coro Ctx Cv Shared : Type}

def State.cv (s : State Coro Ctx Cv Shared) (a : Addr) : Option Cv :=
  match s.kind a with
  | .lock => none
  | .wait cv _ => some cv

/-- The wait queue: the private list, then the list of `m_state` from its end. -/
def State.Queue (s : State Coro Ctx Cv Shared) (queue : List Addr) : Prop :=
  ∃ ready chain, Chain s.next s.resumeListHead ready ∧ Chain s.next s.state.next chain ∧ queue = ready ++ chain.reverse

def State.CvList (s : State Coro Ctx Cv Shared) (cv : Cv) (list : List Addr) : Prop :=
  Chain s.next (s.head cv) list ∧ s.tail cv = list.getLast?

structure Kept (t : Coro) (s s' : State Coro Ctx Cv Shared) : Prop where
  pc : ∀ u, u ≠ t → s'.pc u = s.pc u
  owns : s'.owns = s.owns
  kind : s'.kind = s.kind
  shared : s'.shared = s.shared
  ctx : s'.ctx = s.ctx
  awaitCoro : s'.awaitCoro = s.awaitCoro

theorem Kept.trans {t : Coro} {s s' s'' : State Coro Ctx Cv Shared} (first : Kept t s s') (later : Kept t s' s'') : Kept t s s'' :=
  ⟨fun u other => (later.pc u other).trans (first.pc u other),later.owns.trans first.owns,later.kind.trans first.kind,
    later.shared.trans first.shared,later.ctx.trans first.ctx,later.awaitCoro.trans first.awaitCoro⟩

theorem Kept.cv {t : Coro} {s s' : State Coro Ctx Cv Shared} (kept : Kept t s s') : s'.cv = s.cv := by
  funext a
  rw [State.cv,State.cv,kept.kind]

theorem Kept.ready {t : Coro} {s s' : State Coro Ctx Cv Shared} (kept : Kept t s s') : s'.ready = s.ready := by
  funext a
  rw [State.ready,State.ready,kept.kind,kept.shared]

variable [DecidableEq Coro] [DecidableEq Ctx] [DecidableEq Cv]
variable {s s' s'' : State Coro Ctx Cv Shared} {h : Holder Coro} {g g' : Lists Coro Cv} {t : Coro} {p q : Pc Cv}

omit [DecidableEq Ctx] [DecidableEq Cv] in
private theorem goto_kept (pc : s'.pc = Function.update s.pc t p) (owns : s'.owns = s.owns)
    (kind : s'.kind = s.kind) (shared : s'.shared = s.shared) (ctx : s'.ctx = s.ctx) (awaitCoro : s'.awaitCoro = s.awaitCoro) :
    Kept t s s' :=
  ⟨fun u other => by rw [pc,Function.update_of_ne other],owns,kind,shared,ctx,awaitCoro⟩

/-- The steps of `t` alone lead from `s` to `s'`, where it is at `p`, nothing has been
submitted on the way, and no lock is taken but by `t`. -/
structure Goes (t : Coro) (s s' : State Coro Ctx Cv Shared) (g : Lists Coro Cv) (p : Pc Cv) : Prop where
  runs : (machine Coro Ctx Cv Shared).Repeats (.step t) s s'
  pc : s'.pc t = p
  inv : ∃ h, Invariant s' h g
  kept : Kept t s s'
  submissions : s'.submissions = s.submissions
  contexts : s'.contexts = s.contexts
  lock : ∀ k, s'.lock k = true → p.spins = some k

theorem Goes.start (inv : Invariant s h g) (pc : s.pc t = p) (free : ∀ k, s.lock k = false) : Goes t s s g p := by
  refine ⟨.refl ..,pc,⟨h,inv⟩,⟨fun _ _ => rfl,rfl,rfl,rfl,rfl,rfl⟩,rfl,rfl,fun k held => ?_⟩
  rw [free] at held
  contradiction

theorem Goes.spin (goes : Goes t s s' g p) (moved : advance s' t = some s'') (lists : g.after s' (.step t) = g')
    (pc : s''.pc = Function.update s'.pc t q) (kept : Kept t s' s'') (submissions : s''.submissions = s'.submissions)
    (contexts : s''.contexts = s'.contexts) (lock : ∀ k, s''.lock k = true → q.spins = some k) : Goes t s s'' g' q := by
  obtain ⟨h,inv⟩ := goes.inv
  have after := inv.step (a := .step t) moved
  rw [lists] at after
  exact ⟨goes.runs.trans (.head moved (.refl ..)),by rw [pc,Function.update_self],⟨_,after⟩,goes.kept.trans kept,
    submissions.trans goes.submissions,contexts.trans goes.contexts,lock⟩

theorem Goes.unlocked (goes : Goes t s s' g p) (spins : p.spins = none) (k : Cv) : s'.lock k = false := by
  by_contra held
  have mine := goes.lock k (by simpa using held)
  rw [spins] at mine
  contradiction

theorem Goes.next (goes : Goes t s s' g p) (moved : advance s' t = some s'') (lists : g.after s' (.step t) = g')
    (pc : s''.pc = Function.update s'.pc t q) (kept : Kept t s' s'') (submissions : s''.submissions = s'.submissions)
    (contexts : s''.contexts = s'.contexts) (lock : s''.lock = s'.lock) (spins : p.spins = none) : Goes t s s'' g' q := by
  refine goes.spin moved lists pc kept submissions contexts fun k held => ?_
  rw [lock,goes.unlocked spins] at held
  contradiction

section
variable {caller : Frame Cv} {a : Addr}

theorem Goes.locked (goes : Goes t s s' g p) (holding : p.holding = true) : s'.state ≠ .nolocked := by
  obtain ⟨h,inv⟩ := goes.inv
  exact inv.owned.locked (t := t) (by rw [goes.pc,holding])

theorem Goes.ready (goes : Goes t s s' g p) (holding : p.holding = true) (whole : p.reversing = false) :
    Chain s'.next s'.resumeListHead g.ready := by
  obtain ⟨h,inv⟩ := goes.inv
  exact inv.tracked.linked.resumeList fun u => inv.owned.quietly goes.pc u holding whole

theorem Goes.chain (goes : Goes t s s' g p) : Chain s'.next s'.state.next g.chain := by
  obtain ⟨h,inv⟩ := goes.inv
  exact inv.tracked.linked.chain

theorem Goes.unlock (goes : Goes t s s' g (.unlock caller)) : ∃ s'', Goes t s s'' g (.unlockHead caller) := by
  have moved : advance s' t = some (s'.goto t (.unlockHead caller)) := by
    simp only [advance,goes.pc,if_neg (goes.locked rfl)]
  exact ⟨_,goes.next moved (by simp only [Lists.after,goes.pc]) rfl (goto_kept rfl rfl rfl rfl rfl rfl) rfl rfl rfl rfl⟩

theorem Goes.unlockHead (goes : Goes t s s' g (.unlockHead caller)) {ready : List Addr} (first : g.ready = a::ready) :
    ∃ s'' place, Goes t s s'' { g with ready, place } (.resume a caller) := by
  have list := goes.ready rfl rfl
  rw [first] at list
  have moved : advance s' t = some { s'.goto t (.resume a caller) with resumeListHead := s'.next a } := by
    simp only [advance,goes.pc,list.1]
  refine ⟨_,Function.update g.place a (.hand t),goes.next moved ?_ rfl (goto_kept rfl rfl rfl rfl rfl rfl) rfl rfl rfl rfl⟩
  simp only [Lists.after,goes.pc,list.1,first,List.tail_cons]

private theorem Goes.unlockHead_nil (goes : Goes t s s' g (.unlockHead caller)) (empty : g.ready = []) :
    ∃ s'', Goes t s s'' g (.unlockCompareExchange caller) := by
  have list := goes.ready rfl rfl
  rw [empty,Chain.nil_iff] at list
  have moved : advance s' t = some (s'.goto t (.unlockCompareExchange caller)) := by simp only [advance,goes.pc,list]
  exact ⟨_,goes.next moved (by simp only [Lists.after,goes.pc,list]) rfl (goto_kept rfl rfl rfl rfl rfl rfl) rfl rfl rfl rfl⟩

private theorem Goes.unlockFrees (goes : Goes t s s' g (.unlockCompareExchange caller)) (empty : g.chain = []) :
    ∃ s'', Goes t s s'' g caller.finish ∧ s''.state = .nolocked := by
  have list := goes.chain
  rw [empty,Chain.nil_iff] at list
  have bare : s'.state = lockedNoWaiting := by
    cases state : s'.state with
    | nolocked => exact absurd state (goes.locked rfl)
    | locked top =>
      rw [state] at list
      rw [lockedNoWaiting,show top = none from list]
  have moved : advance s' t = some { s'.goto t caller.finish with state := .nolocked } := by
    simp only [advance,goes.pc,if_pos bare]
  exact ⟨_,goes.next moved (by simp only [Lists.after,goes.pc]) rfl (goto_kept rfl rfl rfl rfl rfl rfl) rfl rfl rfl rfl,rfl⟩

private theorem Goes.top (goes : Goes t s s' g p) (holding : p.holding = true) {chain : List Addr} (first : g.chain = a::chain) :
    s'.state = .locked (some a) := by
  have list := goes.chain
  rw [first] at list
  cases state : s'.state with
  | nolocked => exact absurd state (goes.locked holding)
  | locked top =>
    rw [state] at list
    rw [show top = some a from list.1]

private theorem Goes.unlockWaited (goes : Goes t s s' g (.unlockCompareExchange caller)) {chain : List Addr} (first : g.chain = a::chain) :
    ∃ s'', Goes t s s'' g (.unlockExchange caller) := by
  have waiters : s'.state ≠ lockedNoWaiting := by simp [goes.top rfl first,lockedNoWaiting]
  have moved : advance s' t = some (s'.goto t (.unlockExchange caller)) := by simp only [advance,goes.pc,if_neg waiters]
  exact ⟨_,goes.next moved (by simp only [Lists.after,goes.pc]) rfl (goto_kept rfl rfl rfl rfl rfl rfl) rfl rfl rfl rfl⟩

theorem Goes.unlockExchange (goes : Goes t s s' g (.unlockExchange caller)) {chain : List Addr} (first : g.chain = a::chain) :
    ∃ s'' place, Goes t s s'' { g with chain := [], ready := g.chain.reverse, place } (.unlockReverse a none caller) ∧
      Chain s''.next (some a) g.chain := by
  have list := goes.chain
  have top := goes.top rfl first
  have moved : advance s' t = some { s'.goto t (.unlockReverse a none caller) with state := lockedNoWaiting } := by
    simp only [advance,goes.pc,top]
  refine ⟨_,fun b => if g.place b = .state then .resumeList else g.place b,goes.next moved ?_ rfl
    (goto_kept rfl rfl rfl rfl rfl rfl) rfl rfl rfl rfl,?_⟩
  · simp only [Lists.after,goes.pc]
  · rw [top] at list
    exact list

theorem Goes.unlockReverse (left : List Addr) {toResume : Option Addr} (goes : Goes t s s' g (.unlockReverse a toResume caller))
    (chain : Chain s'.next (some a) left) : ∃ s'' first, Goes t s s'' g (.unlockPop first caller) := by
  induction left generalizing s' a toResume with
  | nil => cases chain
  | cons b rest ih =>
    obtain ⟨same,tail⟩ := chain
    rw [Option.some.injEq] at same
    subst b
    cases link : s'.next a with
    | none =>
      have moved : advance s' t = some { s'.goto t (.unlockPop a caller) with next := Function.update s'.next a toResume } := by
        simp only [advance,goes.pc,link]
      exact ⟨_,a,goes.next moved (by simp only [Lists.after,goes.pc]) rfl (goto_kept rfl rfl rfl rfl rfl rfl) rfl rfl rfl rfl⟩
    | some temp =>
      have moved : advance s' t = some { s'.goto t (.unlockReverse temp (some a) caller) with
          next := Function.update s'.next a toResume } := by
        simp only [advance,goes.pc,link]
      have goes : Goes t s _ g (.unlockReverse temp (some a) caller) :=
        goes.next moved (by simp only [Lists.after,goes.pc]) rfl (goto_kept rfl rfl rfl rfl rfl rfl) rfl rfl rfl rfl
      have absent : a ∉ rest := (List.nodup_cons.mp (Chain.nodup (l := a::rest) ⟨rfl,tail⟩)).1
      apply ih goes
      rw [Chain.update_iff absent,← link]
      exact tail

theorem Goes.unlockPop {first : Addr} (goes : Goes t s s' g (.unlockPop first caller)) {ready : List Addr}
    (list : g.ready = a::ready) : ∃ s'' place, Goes t s s'' { g with ready, place } (.resume a caller) := by
  obtain ⟨h,inv⟩ := goes.inv
  have chain := inv.tracked.linked.pop t first caller goes.pc
  rw [list] at chain
  cases Option.some.inj chain.1
  have moved : advance s' t = some { s'.goto t (.resume a caller) with resumeListHead := s'.next a } := by
    simp only [advance,goes.pc]
  refine ⟨_,Function.update g.place a (.hand t),goes.next moved ?_ rfl (goto_kept rfl rfl rfl rfl rfl rfl) rfl rfl rfl rfl⟩
  simp only [Lists.after,goes.pc,list,List.tail_cons]

private theorem Goes.frees (goes : Goes t s s' g (.unlock caller)) (empty : g.queue = []) :
    ∃ s'', Goes t s s'' g caller.finish ∧ s''.state = .nolocked := by
  obtain ⟨ready,chain⟩ := List.append_eq_nil_iff.mp empty
  obtain ⟨_,goes⟩ := goes.unlock
  obtain ⟨_,goes⟩ := goes.unlockHead_nil ready
  exact goes.unlockFrees (List.reverse_eq_nil_iff.mp chain)

theorem Goes.first {rest : List Addr} (goes : Goes t s s' g (.unlock caller)) (queue : g.queue = a::rest) :
    ∃ s'' g', Goes t s s'' g' (.resume a caller) ∧ g'.queue = rest ∧ g'.waiting = g.waiting := by
  obtain ⟨_,goes⟩ := goes.unlock
  cases ready : g.ready with
  | cons b ready' =>
    rw [Lists.queue,ready,List.cons_append,List.cons.injEq] at queue
    obtain ⟨rfl,rest⟩ := queue
    obtain ⟨s'',place,goes⟩ := goes.unlockHead ready
    exact ⟨s'',_,goes,rest,rfl⟩
  | nil =>
    rw [Lists.queue,ready,List.nil_append] at queue
    obtain ⟨_,goes⟩ := goes.unlockHead_nil ready
    cases chain : g.chain with
    | nil =>
      rw [chain] at queue
      contradiction
    | cons b chain' =>
      obtain ⟨_,goes⟩ := goes.unlockWaited chain
      obtain ⟨_,_,goes,left⟩ := goes.unlockExchange chain
      obtain ⟨_,_,goes⟩ := goes.unlockReverse g.chain left
      obtain ⟨s'',place,goes⟩ := goes.unlockPop queue
      exact ⟨s'',_,goes,by rw [Lists.queue,List.reverse_nil,List.append_nil],rfl⟩

theorem Goes.suspended (goes : Goes t s s' g (.resume a caller)) {cv : Cv} {cond : Option (Shared → Bool)}
    (kind : s'.kind a = .wait cv cond) : s'.suspendState a = true := by
  obtain ⟨h,inv⟩ := goes.inv
  have live := inv.tracked.placed.live_of_hand (t := t) (a := a) (by rw [goes.pc]; rfl)
  refine inv.suspending.slow _ a (inv.tracked.placed.self a live) ?_ (by rw [kind]; simp)
  by_contra entering
  have holding : (s'.pc (s'.awaitCoro a)).holding = true := by
    cases pc : s'.pc (s'.awaitCoro a) with
    | cvAwaitSuspend b | awaitResume b | cvRegisterWait b k f => rfl
    | _ => simp [pc,Pc.entering] at entering
  -- only `t` is inside a function that holds the mutex
  have mine := inv.owned.alone holding (u := t) (by rw [goes.pc]; rfl)
  rw [mine,goes.pc] at entering
  exact entering rfl

section
variable {cv : Cv} {f : Frame Cv}

/-- A second `register_wait` counts nothing. -/
theorem Goes.register (goes : Goes t s s' g (.cvRegisterWait a cv f)) (suspended : s'.suspendState a = true) :
    ∃ s'', Goes t s s'' g (.cvLock a cv f) := by
  have moved : advance s' t = some { s'.goto t (.cvLock a cv f) with
      contexts := s'.contexts.registerWait (s'.ctx a) 0
      suspendState := Function.update s'.suspendState a true
      next := Function.update s'.next a none } := by
    simp only [advance,goes.pc,suspended,if_true]
  have uncounted : s'.contexts.registerWait (s'.ctx a) 0 = s'.contexts := by
    rw [Contexts.registerWait,Int.add_zero,Function.update_eq_self]
  exact ⟨_,goes.next moved (by simp only [Lists.after,goes.pc]) rfl (goto_kept rfl rfl rfl rfl rfl rfl) rfl uncounted rfl rfl⟩

theorem Goes.acquire (goes : Goes t s s' g (.cvLock a cv f)) : ∃ s'', Goes t s s'' g (.cvLink a cv f) := by
  have free := goes.unlocked rfl
  have moved : advance s' t = some { s'.goto t (.cvLink a cv f) with lock := Function.update s'.lock cv true } := by
    simp only [advance,goes.pc,free]
    rfl
  refine ⟨_,goes.spin moved (by simp only [Lists.after,goes.pc]) rfl (goto_kept rfl rfl rfl rfl rfl rfl) rfl rfl fun k held => ?_⟩
  by_cases same : k = cv
  · rw [same]
    rfl
  · dsimp only at held
    rw [Function.update_of_ne same,free] at held
    contradiction

theorem Goes.link (goes : Goes t s s' g (.cvLink a cv f)) : ∃ s'' place,
    Goes t s s'' { g with waiting := Function.update g.waiting cv (g.waiting cv ++ [a]), place } (.cvUnlock a cv f) := by
  have lists : g.after s' (.step t) = { g with
      waiting := Function.update g.waiting cv (g.waiting cv ++ [a])
      place := Function.update g.place a (.cv cv) } := by
    simp only [Lists.after,goes.pc]
  cases tail : s'.tail cv with
  | none =>
    have moved : advance s' t = some { s'.goto t (.cvUnlock a cv f) with
        head := Function.update s'.head cv (some a)
        tail := Function.update s'.tail cv (some a)
        registrations := Function.update s'.registrations cv (s'.registrations cv ++ [a]) } := by
      simp only [advance,goes.pc,tail]
    exact ⟨_,_,goes.spin moved lists rfl (goto_kept rfl rfl rfl rfl rfl rfl) rfl rfl goes.lock⟩
  | some last =>
    have moved : advance s' t = some { s'.goto t (.cvUnlock a cv f) with
        next := Function.update s'.next last (some a)
        tail := Function.update s'.tail cv (some a)
        registrations := Function.update s'.registrations cv (s'.registrations cv ++ [a]) } := by
      simp only [advance,goes.pc,tail]
    exact ⟨_,_,goes.spin moved lists rfl (goto_kept rfl rfl rfl rfl rfl rfl) rfl rfl goes.lock⟩

theorem Goes.release (goes : Goes t s s' g (.cvUnlock a cv f)) : ∃ s'', Goes t s s'' g (.unlock f) := by
  have moved : advance s' t = some { s'.goto t (.unlock f) with lock := Function.update s'.lock cv false } := by
    simp only [advance,goes.pc]
  refine ⟨_,goes.spin moved (by simp only [Lists.after,goes.pc]) rfl (goto_kept rfl rfl rfl rfl rfl rfl) rfl rfl fun k held => ?_⟩
  by_cases same : k = cv
  · subst same
    dsimp only at held
    rw [Function.update_self] at held
    contradiction
  · dsimp only at held
    rw [Function.update_of_ne same] at held
    exact absurd (Option.some.inj (goes.lock k held)).symm same

end

/-- A waiter whose predicate is false goes to the end of the list of its condition
variable, and `unlock` is called again. -/
theorem Goes.refuse (goes : Goes t s s' g (.resume a caller)) (unready : s'.ready a = false) {cv : Cv}
    {cond : Option (Shared → Bool)} (kind : s'.kind a = .wait cv cond) :
    ∃ s'' g', Goes t s s'' g' (.unlock (.resume a caller)) ∧ g'.queue = g.queue ∧
      g'.waiting = Function.update g.waiting cv (g.waiting cv ++ [a]) := by
  have suspended := goes.suspended kind
  have moved : advance s' t = some (s'.goto t (.cvRegisterWait a cv (.resume a caller))) := by
    simp only [advance,goes.pc,kind,unready]
    rfl
  have goes : Goes t s _ g (.cvRegisterWait a cv (.resume a caller)) :=
    goes.next moved (by simp only [Lists.after,goes.pc]) rfl (goto_kept rfl rfl rfl rfl rfl rfl) rfl rfl rfl rfl
  obtain ⟨s₁,goes⟩ := goes.register suspended
  obtain ⟨s₂,goes⟩ := goes.acquire
  obtain ⟨s₃,place,goes⟩ := goes.link
  obtain ⟨s₄,goes⟩ := goes.release
  exact ⟨s₄,_,goes,rfl,rfl⟩

/-- What has become of the waiters from the first one that is ready on. -/
def Settled (s s' : State Coro Ctx Cv Shared) (g : Lists Coro Cv) : List Addr → Prop
  | [] => g.queue = [] ∧ s'.state = .nolocked ∧ s'.submissions = s.submissions ∧ s'.contexts = s.contexts
  | a::later => g.queue = later ∧ s'.state ≠ .nolocked ∧
      s'.submissions = Function.update s.submissions a (s.submissions a + 1) ∧
      s'.contexts = s.contexts.submitTask (s.ctx a) (s.awaitCoro a)

theorem Goes.submit (goes : Goes t s s' g (.resume a caller)) (ready : s'.ready a = true) :
    ∃ s'' g', (machine Coro Ctx Cv Shared).Repeats (.step t) s s'' ∧ s''.pc t = caller.finish ∧ (∃ h, Invariant s'' h g') ∧
      Kept t s s'' ∧ g'.waiting = g.waiting ∧ Settled s s'' g' (a::g.queue) := by
  have moved : advance s' t = some (s'.goto t (.submitTask a caller)) := by
    cases kind : s'.kind a with
    | lock => simp only [advance,goes.pc,kind]
    | wait cv cond => simp only [advance,goes.pc,kind,ready,if_true]
  have goes : Goes t s _ g (.submitTask a caller) :=
    goes.next moved (by simp only [Lists.after,goes.pc]) rfl (goto_kept rfl rfl rfl rfl rfl rfl) rfl rfl rfl rfl
  generalize s'.goto t (.submitTask a caller) = s' at goes
  have moved : advance s' t = some { s'.goto t caller.finish with
      contexts := s'.contexts.submitTask (s'.ctx a) (s'.awaitCoro a)
      submissions := Function.update s'.submissions a (s'.submissions a + 1) } := by
    simp only [advance,goes.pc]
  obtain ⟨h,inv⟩ := goes.inv
  have after := inv.step (a := .step t) moved
  simp only [Lists.after,goes.pc] at after
  refine ⟨_,_,goes.runs.trans (.head moved (.refl ..)),Function.update_self ..,⟨_,after⟩,
    goes.kept.trans (goto_kept rfl rfl rfl rfl rfl rfl),rfl,rfl,goes.locked rfl,?_,?_⟩
  · dsimp only
    rw [goes.submissions]
  · dsimp only
    rw [goes.contexts,goes.kept.ctx,goes.kept.awaitCoro]

/-- The whole `unlock`, by induction on the waiters it passes over. -/
theorem Goes.settles (skipped rest : List Addr) (goes : Goes t s s' g (.unlock caller)) (queue : g.queue = skipped ++ rest)
    (refused : ∀ a ∈ skipped, s.ready a = false) (granted : ∀ a ∈ rest.head?, s.ready a = true) :
    ∃ s'' g', (machine Coro Ctx Cv Shared).Repeats (.step t) s s'' ∧ s''.pc t = caller.finish ∧ (∃ h, Invariant s'' h g') ∧
      Kept t s s'' ∧ (∀ k, g'.waiting k = g.waiting k ++ skipped.filter fun a => s.cv a = some k) ∧ Settled s s'' g' rest := by
  induction skipped generalizing s' g caller with
  | nil =>
    cases rest with
    | nil =>
      obtain ⟨s'',goes,free⟩ := goes.frees queue
      exact ⟨s'',g,goes.runs,goes.pc,goes.inv,goes.kept,fun k => (List.append_nil _).symm,queue,free,goes.submissions,goes.contexts⟩
    | cons a later =>
      obtain ⟨s₁,g₁,goes,rest,waiting⟩ := goes.first queue
      obtain ⟨s'',g',runs,pc,inv,kept,waiting',settled⟩ := goes.submit (by rw [goes.kept.ready]; exact granted a rfl)
      rw [rest] at settled
      refine ⟨s'',g',runs,pc,inv,kept,fun k => ?_,settled⟩
      rw [waiting',waiting,List.filter_nil,List.append_nil]
  | cons a skipped ih =>
    obtain ⟨s₁,g₁,goes,after,waiting⟩ := goes.first queue
    have unready : s₁.ready a = false := by
      rw [goes.kept.ready]
      exact refused a List.mem_cons_self
    cases kind : s₁.kind a with
    | lock =>
      rw [ready_lock kind] at unready
      contradiction
    | wait cv cond =>
      have mine : s.cv a = some cv := by rw [← goes.kept.cv,State.cv,kind]
      obtain ⟨s₂,g₂,goes,queue',appended⟩ := goes.refuse unready kind
      obtain ⟨s'',g',runs,pc,inv,kept,waiting',settled⟩ := ih goes (queue'.trans after) fun b member =>
        refused b (List.mem_cons_of_mem a member)
      refine ⟨s'',g',runs,pc,inv,kept,fun k => ?_,settled⟩
      rw [waiting',appended,waiting]
      by_cases same : k = cv
      · subst same
        rw [Function.update_self,List.filter_cons_of_pos (by simp [mine]),List.append_assoc]
        rfl
      · rw [Function.update_of_ne same,List.filter_cons_of_neg (by simp [mine,Ne.symm same])]

/-- An `unlock` that passes over `skipped` and stops at the head of `rest`. -/
structure PassedOver (s s' : State Coro Ctx Cv Shared) (lists : Cv → List Addr) (skipped rest : List Addr) : Prop where
  appended : ∀ cv, s'.CvList cv (lists cv ++ skipped.filter fun a => s.cv a = some cv)
  queue : s'.Queue rest.tail
  counts : s'.contexts.numWaitTask = s.contexts.numWaitTask
  freed : rest = [] → s'.state = .nolocked ∧ s'.submissions = s.submissions ∧ s'.contexts = s.contexts
  granted : ∀ a later, rest = a::later → s'.state ≠ .nolocked ∧ s'.Owner (s.awaitCoro a) ∧
    s'.submissions = Function.update s.submissions a (s.submissions a + 1) ∧
    s'.contexts = s.contexts.submitTask (s.ctx a) (s.awaitCoro a)

omit [DecidableEq Coro] [DecidableEq Ctx] [DecidableEq Cv] in
private theorem Linked.queue_eq (linked : Linked s g) (quiet : ∀ u, (s.pc u).reversing = false) {queue : List Addr}
    (here : s.Queue queue) : g.queue = queue := by
  obtain ⟨ready,chain,first,second,rfl⟩ := here
  rw [Lists.queue,(linked.resumeList quiet).unique first,linked.chain.unique second]

omit [DecidableEq Coro] [DecidableEq Ctx] [DecidableEq Cv] in
private theorem Linked.cvList (linked : Linked s g) (cv : Cv) : s.CvList cv (g.waiting cv) := ⟨linked.waiting cv,linked.tail cv⟩

/-- `unlock` by the owner while nothing else moves and no spin lock is held: it returns,
the waiters before the first that is ready are at the end of the lists of their own
condition variables, and that one has the mutex, or nobody. -/
theorem unlock_passes_over (s : State Coro Ctx Cv Shared) (reachable : (machine Coro Ctx Cv Shared).Reachable s) (t : Coro)
    (idle : s.pc t = .idle) (owns : s.owns t = true) (free : ∀ cv, s.lock cv = false) (skipped rest : List Addr)
    (queue : s.Queue (skipped ++ rest)) (refused : ∀ a ∈ skipped, s.ready a = false)
    (granted : ∀ a ∈ rest.head?, s.ready a = true) (lists : Cv → List Addr) (waiting : ∀ cv, s.CvList cv (lists cv)) :
    ∃ n s', (machine Coro Ctx Cv Shared).run s (.unlock t::List.replicate n (.step t)) = some s' ∧
      s'.pc = s.pc ∧ PassedOver s s' lists skipped rest := by
  obtain ⟨h,g,inv⟩ := reachable_invariant s reachable
  have outside : ∀ u, (s.pc u).holding = false := by
    intro u
    obtain ⟨rfl,_⟩ := inv.owned.owner t owns
    by_cases same : u = t
    · rw [same,idle]
      rfl
    · exact (inv.owned.quiet fun here => same (Holder.thread.inj here).symm).2.1
  have quiet : ∀ u, (s.pc u).reversing = false := by
    intro u
    by_contra turns
    have holding := holding_of_reversing (.inl (by simpa using turns))
    rw [outside] at holding
    contradiction
  have called : step s (.unlock t) = some { s.goto t (.unlock .user) with owns := Function.update s.owns t false } := by
    simp only [step,idle,if_pos owns]
  have after := inv.step (a := .unlock t) called
  have same : g.queue = skipped ++ rest := inv.tracked.linked.queue_eq quiet queue
  have goes := Goes.start (t := t) (p := .unlock .user) after (Function.update_self ..) free
  obtain ⟨s',g',⟨n,ran⟩,pc,⟨h',inv'⟩,kept,waiting',settled⟩ := goes.settles skipped rest same refused granted
  have pcs : s'.pc = s.pc := by
    funext u
    by_cases same : u = t
    · rw [same,pc,idle]
      rfl
    · rw [kept.pc u same]
      exact Function.update_of_ne same ..
  have quiet' : ∀ u, (s'.pc u).reversing = false := by
    rw [pcs]
    exact quiet
  refine ⟨n,s',?_,pcs,?_,?_,?_,?_,?_⟩
  · exact Option.bind_eq_some_iff.mpr ⟨_,called,ran⟩
  · intro cv
    have list := inv'.tracked.linked.cvList cv
    rw [waiting' cv] at list
    rw [(waiting cv).1.unique (inv.tracked.linked.waiting cv)]
    exact list
  · refine ⟨g'.ready,g'.chain,inv'.tracked.linked.resumeList quiet',inv'.tracked.linked.chain,?_⟩
    cases rest with
    | nil => exact settled.1.symm
    | cons a later => exact settled.1.symm
  · cases rest with
    | nil => exact congrArg Contexts.numWaitTask settled.2.2.2
    | cons a later => exact (congrArg Contexts.numWaitTask settled.2.2.2).trans rfl
  · rintro rfl
    exact settled.2
  · rintro a later rfl
    obtain ⟨_,locked,submissions,contexts⟩ := settled
    refine ⟨locked,.inr (.inr ⟨s.ctx a,?_⟩),submissions,contexts⟩
    rw [contexts]
    exact Contexts.mem_submitTask.mpr (.inr ⟨rfl,rfl⟩)

end

def Pc.calling {Cv : Type} : Pc Cv → Bool
  | .idle => false
  | _ => true

private theorem idle_of_calling {Cv : Type} {pc : Pc Cv} (calling : pc.calling = false) : pc = .idle := by
  cases pc with
  | idle => rfl
  | _ => contradiction

/-- Three of four waiters are notified while the mutex is held, the first two in vain;
behind them another coroutine has called `lock`. -/
def notifiedWhileHeld : List (Action (Fin 6) Unit Unit Bool) :=
  let waits (t : Fin 6) (a : Addr) (cond : Option (Bool → Bool)) : List (Action (Fin 6) Unit Unit Bool) :=
    .lock t a ()::List.replicate 4 (.step t) ++ .wait t (a+1) () () cond::List.replicate 8 (.step t)
  waits 0 0 (some id) ++ waits 1 2 (some id) ++ waits 2 4 none ++ waits 4 8 (some id) ++
    .tryLock 3::(List.replicate 3 (.notifyOne 3 ()::List.replicate 5 (.step 3))).flatten ++ .lock 5 6 ()::List.replicate 3 (.step 5)

theorem notified_while_held_passes_over : ∃ s, (machine (Fin 6) Unit Unit Bool).run (newMutex 0) notifiedWhileHeld = some s ∧
    ∃ n s', (machine (Fin 6) Unit Unit Bool).run s (.unlock 3::List.replicate n (.step 3)) = some s' ∧
      s'.pc = s.pc ∧ PassedOver s s' (fun _ => [9]) [1,3] [5,6] := by
  have ends : ((machine (Fin 6) Unit Unit Bool).run (newMutex 0) notifiedWhileHeld).map
      (fun s => ((s.pc 3).calling,s.owns 3,s.lock (),s.ready 1,s.ready 3,s.ready 5)) =
      some (false,true,false,false,false,true) := by decide
  have linked : ((machine (Fin 6) Unit Unit Bool).run (newMutex 0) notifiedWhileHeld).map
      (fun s => ((s.resumeListHead,s.state),(s.next 6,s.next 5,s.next 3,s.next 1),s.head (),s.next 9,s.tail ())) =
      some ((none,.locked (some 6)),(some 5,some 3,some 1,none),some 9,none,some 9) := by rfl
  obtain ⟨s,ran,here⟩ := Option.map_eq_some_iff.mp ends
  rw [ran,Option.map_some,Option.some.injEq] at linked
  simp only [Prod.mk.injEq] at here linked
  obtain ⟨calling,owns,lock,first,second,third⟩ := here
  obtain ⟨⟨resumeListHead,state⟩,⟨next6,next5,next3,next1⟩,head,next9,tail⟩ := linked
  have queue : s.Queue ([1,3] ++ [5,6]) := by
    refine ⟨[],[6,5,3,1],resumeListHead,?_,rfl⟩
    rw [state]
    exact ⟨rfl,next6,next5,next3,next1⟩
  refine ⟨s,ran,unlock_passes_over s (Machine.run_reachable _ _ _ _ (.start (newMutex_fresh 0)) ran) 3 (idle_of_calling calling) owns
    (fun _ => lock) [1,3] [5,6] queue ?_ (by simp [third]) (fun _ => [9]) fun _ => ⟨⟨head,next9⟩,tail⟩⟩
  simp [first,second]

end TinyCoro.Mutex
