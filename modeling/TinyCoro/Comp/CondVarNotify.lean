import TinyCoro.Comp.CondVarReady

/-! No `notify_all` is lost: a waiter that is still in the list after the last
`notify_all` has registered since the last modification, and its predicate was
false then. -/
namespace TinyCoro.Mutex
open Library

/-- The condition variable whose list a running `notify_all` has detached. -/
def Frame.notifying {Cv : Type} : Frame Cv → Option Cv
  | .user | .awaitSuspend _ => none
  | .notifyAll cv _ => some cv
  | .resume _ caller => caller.notifying

def Pc.notifying {Cv : Type} : Pc Cv → Option Cv
  | .allUnlock cv _ | .allLoop cv _ => some cv
  | pc => pc.frame.bind Frame.notifying

@[simp] theorem finish_notifying {Cv : Type} (f : Frame Cv) : f.finish.notifying = f.notifying := by
  induction f with
  | resume _ _ ih => exact ih
  | _ => rfl

def Pc.notifies {Cv : Type} : Pc Cv → Bool
  | .allLock _ | .allTake _ => true
  | pc => pc.notifying.isSome

@[simp] theorem finish_notifies {Cv : Type} (f : Frame Cv) : f.finish.notifies = f.notifying.isSome := by
  induction f with
  | resume _ _ ih => exact ih
  | _ => rfl

private theorem notifies_of_notifying {Cv : Type} {pc : Pc Cv} {k : Cv} (notifying : pc.notifying = some k) : pc.notifies = true := by
  cases pc with
  | allLock | allTake => rfl
  | _ => exact Option.isSome_of_eq_some notifying

variable {Coro Ctx Cv Shared : Type} [DecidableEq Coro] [DecidableEq Ctx] [DecidableEq Cv]

/-- `since` gives for each waiter the version of the shared state in which it registered. -/
structure Noticed (s : State Coro Ctx Cv Shared) (g : Lists Coro Cv) (since : Addr → Nat) : Prop where
  past : ∀ k, ∀ a ∈ g.waiting k, since a ≤ s.version
  refused : ∀ k, ∀ a ∈ g.waiting k, since a = s.version → s.refused a
  after : ∀ k, ∀ a ∈ g.waiting k, s.notified k ≤ since a
  taken : ∀ t k, (s.pc t).notifying = some k → ∀ a ∈ g.waiting k, s.began t ≤ since a
  began : ∀ t, (s.pc t).notifies = true → s.began t ≤ s.version
  notified : ∀ k, s.notified k ≤ s.version

/-- The versions of the registrations after a step. -/
def since (s : State Coro Ctx Cv Shared) (before : Addr → Nat) : Action Coro Ctx Cv Shared → Addr → Nat
  | .step t =>
    match s.pc t with
    | .cvLink self _ _ => Function.update before self s.version
    | _ => before
  | _ => before

section
variable {s s' : State Coro Ctx Cv Shared} {g g' : Lists Coro Cv} {t : Coro} {v : Addr → Nat}

omit [DecidableEq Coro] [DecidableEq Ctx] [DecidableEq Cv] in
private theorem fresh_noticed (s : State Coro Ctx Cv Shared) (fresh : Fresh s) : Noticed s (.initial : Lists Coro Cv) fun _ => 0 := by
  obtain ⟨_,_,_,_,_,_,pc,_,_,_,_,version,notified⟩ := fresh
  constructor <;> simp [pc,version,notified,Lists.initial,Pc.notifying,Pc.notifies,Pc.frame]

omit [DecidableEq Ctx] [DecidableEq Cv] in
/-- A step of one thread that keeps the version and registers no waiter: what is
left is about the new place of that thread and the versions of the `notify_all`s. -/
theorem Noticed.move (noticed : Noticed s g v) {p : Pc Cv} (pc : s'.pc = Function.update s.pc t p)
    (waiting : ∀ k, ∀ a ∈ g'.waiting k, a ∈ g.waiting k) (refused : ∀ k, ∀ a ∈ g'.waiting k, s.refused a → s'.refused a)
    (version : s'.version = s.version) (other : ∀ u, u ≠ t → s'.began u = s.began u)
    (after : ∀ k, ∀ a ∈ g'.waiting k, s'.notified k ≤ v a)
    (taken : ∀ k, p.notifying = some k → ∀ a ∈ g'.waiting k, s'.began t ≤ v a)
    (began : p.notifies = true → s'.began t ≤ s.version) (notified : ∀ k, s'.notified k ≤ s.version) : Noticed s' g' v := by
  constructor
  case past =>
    intro k a member
    rw [version]
    exact noticed.past k a (waiting k a member)
  case refused =>
    intro k a member current
    rw [version] at current
    exact refused k a member (noticed.refused k a (waiting k a member) current)
  case after => exact after
  case taken =>
    intro u k notifying a member
    rcases pc_moved pc u with ⟨same,now⟩ | ⟨apart,now⟩
    · subst same
      rw [now] at notifying
      exact taken k notifying a member
    · rw [now] at notifying
      rw [other u apart]
      exact noticed.taken u k notifying a (waiting k a member)
  case began =>
    intro u notifies
    rw [version]
    rcases pc_moved pc u with ⟨same,now⟩ | ⟨apart,now⟩
    · subst same
      rw [now] at notifies
      exact began notifies
    · rw [now] at notifies
      rw [other u apart]
      exact noticed.began u notifies
  case notified =>
    intro k
    rw [version]
    exact notified k

omit [DecidableEq Ctx] [DecidableEq Cv] in
theorem Noticed.goto (noticed : Noticed s g v) {p q : Pc Cv} (before : s.pc t = q)
    (pc : s'.pc = Function.update s.pc t p) (waiting : ∀ k, ∀ a ∈ g'.waiting k, a ∈ g.waiting k) (kind : s'.kind = s.kind)
    (shared : s'.shared = s.shared) (version : s'.version = s.version) (began : s'.began = s.began)
    (notified : s'.notified = s.notified) (notifying : p.notifying = none ∨ p.notifying = q.notifying)
    (notifies : p.notifies = true → q.notifies = true) : Noticed s' g' v := by
  subst before
  have begun : ∀ u, s'.began u = s.began u := congrFun began
  apply noticed.move pc waiting (fun _ a _ => refused_congr (congrFun kind a) shared) version (fun u _ => begun u)
  case after =>
    intro k a member
    rw [notified]
    exact noticed.after k a (waiting k a member)
  case taken =>
    intro k here a member
    rw [begun]
    rcases notifying with outside | kept
    · rw [outside] at here
      contradiction
    · exact noticed.taken t k (kept ▸ here) a (waiting k a member)
  case began =>
    intro here
    rw [begun]
    exact noticed.began t (notifies here)
  case notified =>
    intro k
    rw [notified]
    exact noticed.notified k

omit [DecidableEq Ctx] [DecidableEq Cv] in
theorem Noticed.construct (noticed : Noticed s g v) (tracked : Tracked s g) {self : Addr} {x : Ctx} {kind : Kind Cv Shared}
    {p : Pc Cv} {owns : Coro → Bool} (free : s.live self = false) (outside : p.notifies = false) :
    Noticed { (s.construct t self x kind).goto t p with owns := owns }
      { g with place := Function.update g.place self (.hand t) } v := by
  have refused : ∀ k, ∀ a ∈ g.waiting k, s.refused a →
      State.refused { (s.construct t self x kind).goto t p with owns := owns } a := by
    intro k a member
    have ne : a ≠ self := by
      intro same
      subst same
      have gone := (tracked.placed.gone a).mpr free
      rw [(tracked.linked.inWaiting k a).mp member] at gone
      contradiction
    exact refused_congr (Function.update_of_ne ne ..) rfl
  refine noticed.move rfl (fun _ _ => id) refused rfl (fun _ _ => rfl) noticed.after ?taken ?began noticed.notified
  case taken =>
    intro k notifying
    rw [notifies_of_notifying notifying] at outside
    contradiction
  case began =>
    intro notifies
    rw [notifies] at outside
    contradiction

omit [DecidableEq Ctx] in
/-- Only `register_cv` adds to the list of a condition variable. -/
theorem Lists.after_waiting {act : Action Coro Ctx Cv Shared} {k : Cv} {a : Addr} (member : a ∈ (g.after s act).waiting k) :
    a ∈ g.waiting k ∨ ∃ t f, act = .step t ∧ s.pc t = .cvLink a k f := by
  unfold Lists.after at member
  split at member
  next t =>
    split at member
    case h_6 self cv caller pc =>
      by_cases same : k = cv
      · subst same
        simp only [Function.update_self,List.mem_append,List.mem_singleton] at member
        exact member.imp id fun (here : a = self) => ⟨t,caller,rfl,here ▸ pc⟩
      · exact .inl (by simpa [same] using member)
    all_goals repeat' split at member
    all_goals try dsimp only at member
    all_goals exact .inl (by grind [Function.update_apply,List.mem_of_mem_tail])
  all_goals repeat' split at member
  all_goals exact .inl member

omit [DecidableEq Ctx] in
private theorem Lists.waiting_of_after (act : Action Coro Ctx Cv Shared) (other : ∀ t a k f, act = .step t → s.pc t ≠ .cvLink a k f)
    (k : Cv) (a : Addr) (member : a ∈ (g.after s act).waiting k) : a ∈ g.waiting k :=
  (Lists.after_waiting member).elim id fun ⟨t,f,same,pc⟩ => absurd pc (other t a k f same)

omit [DecidableEq Ctx] [DecidableEq Cv] in
theorem Noticed.link (noticed : Noticed s g v) {self : Addr} {cv : Cv} {caller : Frame Cv} (pc : s.pc t = .cvLink self cv caller)
    (pc' : s'.pc = Function.update s.pc t (.cvUnlock self cv caller)) (refused : s.refused self)
    (waiting : ∀ k, ∀ a ∈ g'.waiting k, a ∈ g.waiting k ∨ a = self) (kind : s'.kind = s.kind)
    (shared : s'.shared = s.shared) (version : s'.version = s.version) (began : s'.began = s.began)
    (notified : s'.notified = s.notified) : Noticed s' g' (Function.update v self s.version) := by
  have stays : ∀ a, s.refused a → s'.refused a := fun a => refused_congr (congrFun kind a) shared
  have either : ∀ k, ∀ a ∈ g'.waiting k, a = self ∧ Function.update v self s.version a = s.version ∨
      a ∈ g.waiting k ∧ Function.update v self s.version a = v a := by
    intro k a member
    by_cases mine : a = self
    · subst mine
      exact .inl ⟨rfl,Function.update_self ..⟩
    · exact .inr ⟨(waiting k a member).resolve_right mine,Function.update_of_ne mine ..⟩
  have pcs : ∀ u, (s'.pc u).notifying = (s.pc u).notifying ∧ (s'.pc u).notifies = (s.pc u).notifies := by
    intro u
    rcases pc_moved pc' u with ⟨mine,now⟩ | ⟨_,now⟩
    · rw [now,mine,pc]
      exact ⟨rfl,rfl⟩
    · rw [now]
      exact ⟨rfl,rfl⟩
  constructor
  case past =>
    intro k a member
    rw [version]
    rcases either k a member with ⟨_,now⟩ | ⟨old,now⟩
    · exact Nat.le_of_eq now
    · rw [now]
      exact noticed.past k a old
  case refused =>
    intro k a member current
    rcases either k a member with ⟨rfl,_⟩ | ⟨old,now⟩
    · exact stays a refused
    · rw [now,version] at current
      exact stays a (noticed.refused k a old current)
  case after =>
    intro k a member
    rw [notified]
    rcases either k a member with ⟨_,now⟩ | ⟨old,now⟩
    · rw [now]
      exact noticed.notified k
    · rw [now]
      exact noticed.after k a old
  case taken =>
    intro u k notifying a member
    rw [(pcs u).1] at notifying
    rw [began]
    rcases either k a member with ⟨_,now⟩ | ⟨old,now⟩
    · rw [now]
      exact noticed.began u (notifies_of_notifying notifying)
    · rw [now]
      exact noticed.taken u k notifying a old
  case began =>
    intro u notifies
    rw [(pcs u).2] at notifies
    rw [began,version]
    exact noticed.began u notifies
  case notified =>
    intro k
    rw [notified,version]
    exact noticed.notified k

theorem Noticed.advance (noticed : Noticed s g v) (ready : Ready s g) (moved : advance s t = some s') :
    Noticed s' (g.after s (.step t)) (since s v (.step t)) := by
  have waiting := Lists.waiting_of_after (s := s) (g := g) (.step t)
  cases pc : s.pc t with
  | idle | suspended self | aborted => simp [Mutex.advance,pc] at moved
  | cvLink self cv caller =>
    have refused := ready.registering t self cv caller (by rw [pc]; rfl)
    have added : ∀ k, ∀ a ∈ (g.after s (.step t)).waiting k, a ∈ g.waiting k ∨ a = self := by
      intro k a member
      refine (Lists.after_waiting member).imp id ?_
      rintro ⟨u,f,⟨⟩,here⟩
      rw [pc] at here
      cases here
      rfl
    simp only [since,pc]
    simp only [Mutex.advance,pc] at moved
    split at moved
    all_goals cases moved
    all_goals exact noticed.link pc rfl refused added rfl rfl rfl rfl rfl
  | allTake cv =>
    simp only [since,pc]
    simp only [Mutex.advance,pc,Option.some.injEq] at moved
    subst moved
    have empty : (g.after s (.step t)).waiting cv = [] := by simp [Lists.after,pc]
    have fewer := waiting (by rintro _ _ _ _ ⟨⟩; simp [pc])
    have after := fun k a member => noticed.after k a (fewer k a member)
    have began := noticed.began t (by rw [pc]; rfl)
    refine noticed.move rfl fewer (fun _ _ _ => id) rfl (fun _ _ => rfl) after ?taken (fun _ => began) noticed.notified
    case taken =>
      -- the list of `cv` is the one that has just been detached
      intro k here a member
      cases here
      rw [empty] at member
      exact absurd member List.not_mem_nil
  | allLoop cv curHead =>
    have fewer := waiting (by rintro _ _ _ _ ⟨⟩; simp [pc])
    simp only [since,pc]
    cases curHead with
    | none =>
      simp only [Mutex.advance,pc,Option.some.injEq] at moved
      subst moved
      have calls : (s.pc t).notifies = true := by rw [pc]; rfl
      have notifying : (s.pc t).notifying = some cv := by rw [pc]; rfl
      refine noticed.move rfl fewer (fun _ _ _ => id) rfl (fun _ _ => rfl) ?after ?taken ?began ?notified
      case taken => simp [Pc.notifying,Pc.frame]
      case began => simp [Pc.notifies,Pc.notifying,Pc.frame]
      case after =>
        intro k a member
        have after := noticed.after k a (fewer k a member)
        by_cases same : k = cv
        · subst same
          have taken := noticed.taken t k notifying a (fewer k a member)
          simp only [Function.update_self]
          exact Nat.max_le.mpr ⟨after,taken⟩
        · simp only [Function.update_of_ne same]
          exact after
      case notified =>
        intro k
        by_cases same : k = cv
        · subst same
          simp only [Function.update_self]
          exact Nat.max_le.mpr ⟨noticed.notified k,noticed.began t calls⟩
        · simp only [Function.update_of_ne same]
          exact noticed.notified k
    | some curHead =>
      simp only [Mutex.advance,pc,Option.some.injEq] at moved
      subst moved
      exact noticed.goto pc rfl fewer rfl rfl rfl rfl rfl (.inr rfl) id
  | unlockReverse awaiter toResume caller =>
    have fewer := waiting (by rintro _ _ _ _ ⟨⟩; simp [pc])
    simp only [since,pc]
    simp only [Mutex.advance,pc,Option.some.injEq] at moved
    subst moved
    refine noticed.goto pc rfl fewer rfl rfl rfl rfl rfl (.inr ?_) ?_
    all_goals split
    all_goals first | rfl | exact id
  | compareExchange self state waker =>
    have fewer := waiting (by rintro _ _ _ _ ⟨⟩; simp [pc])
    simp only [since,pc]
    simp only [Mutex.advance,pc] at moved
    split at moved
    next =>
      cases state with
      | _ =>
        cases moved
        cases waker with
        | none => exact noticed.goto pc rfl fewer rfl rfl rfl rfl rfl (.inl rfl) (by simp [Pc.notifies,Pc.notifying,Pc.frame])
        | some caller =>
          refine noticed.goto pc rfl fewer rfl rfl rfl rfl rfl (.inr ?_) ?_
          · first | rfl | exact finish_notifying caller
          · first | exact id | exact fun here => (finish_notifies caller).symm.trans here
    next => cases moved; exact noticed.goto pc rfl fewer rfl rfl rfl rfl rfl (.inr rfl) id
  | oneUnlock cv cur =>
    have fewer := waiting (by rintro _ _ _ _ ⟨⟩; simp [pc])
    simp only [since,pc]
    simp only [Mutex.advance,pc,Option.some.injEq] at moved
    subst moved
    refine noticed.goto pc rfl fewer rfl rfl rfl rfl rfl (.inl ?_) ?_
    all_goals cases cur <;> simp [Pc.notifies,Pc.notifying,Pc.frame,Frame.notifying]
  | unlockCompareExchange caller =>
    have fewer := waiting (by rintro _ _ _ _ ⟨⟩; simp [pc])
    simp only [since,pc]
    simp only [Mutex.advance,pc] at moved
    split at moved
    next =>
      cases moved
      exact noticed.goto pc rfl fewer rfl rfl rfl rfl rfl (.inr (finish_notifying caller)) fun here =>
        (finish_notifies caller).symm.trans here
    next => cases moved; exact noticed.goto pc rfl fewer rfl rfl rfl rfl rfl (.inr rfl) id
  | submitTask self caller =>
    have fewer := waiting (by rintro _ _ _ _ ⟨⟩; simp [pc])
    simp only [since,pc]
    simp only [Mutex.advance,pc,Option.some.injEq] at moved
    subst moved
    exact noticed.goto pc rfl fewer rfl rfl rfl rfl rfl (.inr (finish_notifying caller)) fun here =>
      (finish_notifies caller).symm.trans here
  | cvAwaitSuspend self =>
    have fewer := waiting (by rintro _ _ _ _ ⟨⟩; simp [pc])
    simp only [since,pc]
    simp only [Mutex.advance,pc] at moved
    split at moved
    next => contradiction
    next =>
      cases moved
      split
      all_goals refine noticed.goto pc rfl fewer rfl rfl rfl rfl rfl (.inl rfl) ?_
      all_goals simp [Pc.notifies,Pc.notifying,Pc.frame,Frame.notifying]
  | unlock caller | unlockExchange caller =>
    have fewer := waiting (by rintro _ _ _ _ ⟨⟩; simp [pc])
    simp only [since,pc]
    simp only [Mutex.advance,pc] at moved
    try split at moved
    all_goals cases moved
    all_goals first
      | exact noticed.goto pc rfl fewer rfl rfl rfl rfl rfl (.inr rfl) id
      | exact noticed.goto pc rfl fewer rfl rfl rfl rfl rfl (.inl rfl) (by simp [Pc.notifies,Pc.notifying,Pc.frame])
  | _ =>
    have fewer := waiting (by rintro _ _ _ _ ⟨⟩; simp [pc])
    simp only [since,pc]
    simp only [Mutex.advance,pc] at moved
    repeat' split at moved
    all_goals cases moved
    all_goals exact noticed.goto pc rfl fewer rfl rfl rfl rfl rfl (.inr rfl) id

theorem Noticed.step {act : Action Coro Ctx Cv Shared} (noticed : Noticed s g v) (ready : Ready s g)
    (tracked : Tracked s g) (moved : step s act = some s') : Noticed s' (g.after s act) (since s v act) := by
  have waiting := Lists.waiting_of_after (s := s) (g := g) act
  cases act with
  | step t => exact noticed.advance ready moved
  | lock t self x =>
    simp only [Mutex.step] at moved
    split at moved
    next =>
      split at moved
      next => contradiction
      next live => cases moved; exact noticed.construct tracked (Bool.eq_false_iff.mpr live) rfl
    next => contradiction
  | wait t self x cv cond =>
    simp only [Mutex.step] at moved
    split at moved
    next =>
      split at moved
      next free => cases moved; exact noticed.construct tracked free.2 rfl
      next => contradiction
    next => contradiction
  | modify t shared =>
    have fewer := waiting (by simp)
    simp only [Mutex.step] at moved
    repeat' split at moved
    all_goals cases moved
    constructor
    case past => exact fun k a member => Nat.le_succ_of_le (noticed.past k a (fewer k a member))
    case refused =>
      -- every registration is older than the new version
      intro k a member current
      have past := noticed.past k a (fewer k a member)
      have later : since s v (.modify t shared) a = s.version + 1 := current
      simp only [since] at later
      omega
    case after => exact fun k a member => noticed.after k a (fewer k a member)
    case taken => exact fun u k notifying a member => noticed.taken u k notifying a (fewer k a member)
    case began => exact fun u notifies => Nat.le_succ_of_le (noticed.began u notifies)
    case notified => exact fun k => Nat.le_succ_of_le (noticed.notified k)
  | tryLock t =>
    simp only [Mutex.step] at moved
    repeat' split at moved
    all_goals cases moved
    all_goals exact { noticed with }
  | notifyAll t cv =>
    simp only [Mutex.step] at moved
    split at moved
    next pc =>
      cases moved
      refine noticed.move rfl (fun _ _ => id) (fun _ _ _ => id) rfl ?other noticed.after ?taken ?began noticed.notified
      case other => exact fun u ne => Function.update_of_ne ne ..
      case taken => simp [Pc.notifying,Pc.frame]
      case began =>
        intro _
        exact Nat.le_of_eq (Function.update_self ..)
    next => contradiction
  | unlock t | notifyOne t cv =>
    simp only [Mutex.step] at moved
    split at moved
    all_goals try split at moved
    all_goals cases moved
    all_goals refine noticed.goto (by assumption) rfl (fun _ _ => id) rfl rfl rfl rfl rfl (.inl rfl) ?_
    all_goals simp [Pc.notifies,Pc.notifying,Pc.frame,Frame.notifying]
  | spurious t =>
    simp only [Mutex.step] at moved
    split at moved
    next self state waker pc =>
      cases moved
      exact noticed.goto pc rfl (fun _ _ => id) rfl rfl rfl rfl rfl (.inr rfl) id
    next => contradiction
  | exec x =>
    have fewer := waiting (by simp)
    simp only [Mutex.step] at moved
    split at moved
    next => contradiction
    next front rest queue =>
      split at moved
      next self pc =>
        cases moved
        refine noticed.goto pc rfl fewer rfl rfl rfl rfl rfl (.inl rfl) ?_
        simp [Pc.notifies,Pc.notifying,Pc.frame]
      next => contradiction

end

theorem reachable_noticed (s : State Coro Ctx Cv Shared) (reachable : (machine Coro Ctx Cv Shared).Reachable s) :
    ∃ h g v, Invariant s h g ∧ Ready s g ∧ Noticed s g v := by
  refine @Machine.Within.invariant _ _ _ _ (fun s => ∃ h g v, Invariant s h g ∧ Ready s g ∧ Noticed s g v) ?_ ?_ s reachable
  · exact fun s fresh =>
      ⟨.nobody,.initial,fun _ => 0,fresh_invariant s fresh,fresh_ready s fresh,fresh_noticed s fresh⟩
  · rintro s s' a ⟨h,g,v,inv,ready,noticed⟩ _ moved
    exact ⟨_,_,_,inv.step moved,ready.step inv.owned inv.tracked inv.suspending moved,
      noticed.step ready inv.tracked moved⟩

/-- Once a `notify_all` called since the last modification has returned, no
awaiter in the list has a true predicate. -/
theorem no_lost_notify_all (s : State Coro Ctx Cv Shared) (reachable : (machine Coro Ctx Cv Shared).Reachable s) (cv : Cv)
    (returned : s.notified cv = s.version) (a : Addr) (waits : s.Reaches (s.head cv) a) (k : Cv) (cond : Shared → Bool)
    (kind : s.kind a = .wait k (some cond)) : cond s.shared = false := by
  obtain ⟨h,g,v,inv,ready,noticed⟩ := reachable_noticed s reachable
  have member := (reaches_iff (inv.tracked.linked.waiting cv) a).mp waits
  have past := noticed.past cv a member
  have after := noticed.after cv a member
  exact noticed.refused cv a member (by omega) k cond kind

def State.conditional (s : State Coro Ctx Cv Shared) (a : Addr) : Bool :=
  match s.kind a with
  | .wait _ (some _) => true
  | _ => false

/-- A waiter is woken after a modification that leaves its predicate false, and waits again. -/
def wokenInVain : List (Action Bool Unit Unit Bool) :=
  let steps (t : Bool) (n : Nat) : List (Action Bool Unit Unit Bool) := List.replicate n (.step t)
  .lock false 0 ()::steps false 4 ++ .wait false 1 () () (some id)::steps false 8 ++
    .tryLock true::.modify true false::.unlock true::steps true 3 ++ .notifyAll true ()::steps true 15

theorem woken_in_vain_not_lost : ∃ s cond, (machine Bool Unit Unit Bool).run initial wokenInVain = some s ∧
    s.version = 1 ∧ s.head () = some 1 ∧ s.kind 1 = .wait () (some cond) ∧ cond s.shared = false := by
  have ends : ((machine Bool Unit Unit Bool).run initial wokenInVain).map
      (fun s => (s.version,s.notified (),s.head (),s.next 1,s.conditional 1)) = some (1,1,some 1,none,true) := by decide
  obtain ⟨s,ran,here⟩ := Option.map_eq_some_iff.mp ends
  simp only [Prod.mk.injEq] at here
  obtain ⟨version,notified,head,next,conditional⟩ := here
  have reachable := Machine.run_reachable _ _ _ _ (.start initial_fresh) ran
  have reached : s.Reaches (s.head ()) 1 := ⟨[1],⟨head,next⟩,by simp⟩
  unfold State.conditional at conditional
  split at conditional
  next k cond kind =>
    exact ⟨s,cond,ran,version,head,kind,no_lost_notify_all s reachable () (by omega) 1 reached k cond kind⟩
  next => contradiction

end TinyCoro.Mutex
