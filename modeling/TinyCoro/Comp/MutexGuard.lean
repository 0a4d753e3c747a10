import TinyCoro.Comp.MutexOwner

/-! The guard objects of `lock_guard()`. A move constructs a second object for the
same mutex and leaves the first one as it was; every object unlocks where it is
destroyed. -/
namespace TinyCoro.Mutex.Guards
open Library

/-- A call of `unlock` by `~lock_guard`: the acquisition that its object stems from,
whether the coroutine of that acquisition had the mutex, and `m_state`. -/
structure Call where
  acquisition : Nat
  owned : Bool
  state : AwaiterPtr
  deriving DecidableEq

/-- `mtx` are the live objects by their acquisition, `acquired` the coroutines of the
acquisitions so far. -/
structure State (Coro Ctx Cv Shared Guard : Type) where
  mutex : Mutex.State Coro Ctx Cv Shared
  mtx : Guard → Option Nat
  acquired : List Coro
  calls : List Call

inductive Action (Coro Ctx Guard : Type)
  | lockGuard (t : Coro) (self : Addr) (x : Ctx)
  | run (t : Coro)
  | awaitResume (t : Coro) (g : Guard)
  | spurious (t : Coro)
  | exec (x : Ctx)
  | move (t : Coro) (source target : Guard)
  | destroy (t : Coro) (g : Guard)

section
variable {Coro Ctx Cv Shared Guard : Type}

def State.unlocks (s : State Coro Ctx Cv Shared Guard) (n : Nat) : Nat := s.calls.countP fun c => c.acquisition == n

variable [DecidableEq Coro] [DecidableEq Ctx] [DecidableEq Cv] [DecidableEq Guard]

/-- `u` calls `unlock` for the coroutine `owner`, in its `m_mtx.unlock()`. -/
def callUnlock (m : Mutex.State Coro Ctx Cv Shared) (u owner : Coro) : Mutex.State Coro Ctx Cv Shared :=
  { m with pc := Function.update m.pc u (.unlock .user), owns := Function.update m.owns owner false }

/-- Objects may be moved and destroyed by any coroutine. -/
def step (s : State Coro Ctx Cv Shared Guard) : Action Coro Ctx Guard → Option (State Coro Ctx Cv Shared Guard)
  | .lockGuard t self x => (Mutex.step s.mutex (.lock t self x)).map fun m => { s with mutex := m }
  | .run t =>
    match s.mutex.pc t with
    | .awaitResume _ => none
    | _ => (Mutex.advance s.mutex t).map fun m => { s with mutex := m }
  | .awaitResume t g =>
    match s.mutex.pc t, s.mtx g with
    | .awaitResume _, none => (Mutex.advance s.mutex t).map fun m =>
      { s with
        mutex := m
        mtx := Function.update s.mtx g (some s.acquired.length)
        acquired := s.acquired ++ [t] }
    | _, _ => none
  | .spurious t => (Mutex.step s.mutex (.spurious t)).map fun m => { s with mutex := m }
  | .exec x => (Mutex.step s.mutex (.exec x)).map fun m => { s with mutex := m }
  | .move t source target =>
    match s.mutex.pc t, s.mtx target with
    | .idle, none => (s.mtx source).map fun n => { s with mtx := Function.update s.mtx target (some n) }
    | _, _ => none
  | .destroy t g =>
    match s.mutex.pc t, s.mtx g with
    | .idle, some n => s.acquired[n]?.map fun owner =>
      { s with
        mutex := callUnlock s.mutex t owner
        mtx := Function.update s.mtx g none
        calls := s.calls ++ [⟨n,s.mutex.owns owner,s.mutex.state⟩] }
    | _, _ => none

def machine : Machine (State Coro Ctx Cv Shared Guard) (Action Coro Ctx Guard) where
  start s := Fresh s.mutex ∧ (∀ g, s.mtx g = none) ∧ s.acquired = [] ∧ s.calls = []
  step := step

end

section
variable {Coro Ctx Cv Shared Guard : Type} {s t : State Coro Ctx Cv Shared Guard}

/-- The acquisition has not been followed by its unlock yet. -/
def State.Open (s : State Coro Ctx Cv Shared Guard) (n : Nat) : Prop := n < s.acquired.length ∧ s.unlocks n = 0

structure Balanced (s : State Coro Ctx Cv Shared Guard) : Prop where
  once : ∀ n, s.unlocks n ≤ 1
  followed : ∀ n < s.acquired.length, (∀ g, s.mtx g ≠ some n) → s.unlocks n = 1
  proper : ∀ c ∈ s.calls, c.acquisition < s.acquired.length ∧ c.owned = true ∧ c.state ≠ .nolocked
  exclusive : ∀ n m, s.Open n → s.Open m → n = m

/-- What the locks know as long as no acquisition has been unlocked twice. -/
structure Sound (s : State Coro Ctx Cv Shared Guard) : Prop where
  balanced : Balanced s
  owned : ∃ h, Owned s.mutex h
  owner : ∀ n u, s.acquired[n]? = some u → s.unlocks n = 0 → s.mutex.owns u = true

structure Inv (s : State Coro Ctx Cv Shared Guard) : Prop where
  live : ∀ g n, s.mtx g = some n → n < s.acquired.length
  called : ∀ n, s.acquired.length ≤ n → s.unlocks n = 0
  sound : (∀ n, s.unlocks n ≤ 1) → Sound s

theorem Sound.closed (sound : Sound s) (quiet : ∀ u, s.mutex.owns u = false) (n : Nat) : ¬ s.Open n := by
  rintro ⟨bound,none⟩
  have owns := sound.owner n _ (List.getElem?_eq_getElem bound) none
  rw [quiet] at owns
  contradiction

theorem Inv.inside (inv : Inv s) {m : Mutex.State Coro Ctx Cv Shared} (owned : ∀ h, Owned s.mutex h → ∃ h', Owned m h')
    (owns : m.owns = s.mutex.owns) : Inv { s with mutex := m } := by
  refine ⟨inv.live,inv.called,fun once => ?_⟩
  have sound := inv.sound once
  obtain ⟨h,before⟩ := sound.owned
  refine ⟨⟨sound.balanced.once,sound.balanced.followed,sound.balanced.proper,sound.balanced.exclusive⟩,owned h before,?_⟩
  rw [owns]
  exact sound.owner

theorem Inv.move (inv : Inv s) [DecidableEq Guard] {source target : Guard} {n : Nat} (absent : s.mtx target = none)
    (live : s.mtx source = some n) : Inv { s with mtx := Function.update s.mtx target (some n) } := by
  have kept : ∀ g, s.mtx g ≠ none → Function.update s.mtx target (some n) g = s.mtx g := by
    intro g alive
    exact Function.update_of_ne (fun same => alive (by rw [same,absent])) ..
  refine ⟨?_,inv.called,fun once => ?_⟩
  · intro g m here
    dsimp only at here ⊢
    by_cases same : g = target
    · subst same
      rw [Function.update_self,Option.some.injEq] at here
      exact here ▸ inv.live source n live
    · rw [Function.update_of_ne same] at here
      exact inv.live g m here
  · have sound := inv.sound once
    refine ⟨⟨sound.balanced.once,fun m bound gone => ?_,sound.balanced.proper,sound.balanced.exclusive⟩,sound.owned,sound.owner⟩
    refine sound.balanced.followed m bound fun g here => gone g ?_
    dsimp only
    rw [kept g (by rw [here]; exact Option.some_ne_none m)]
    exact here

theorem Inv.acquire (inv : Inv s) [DecidableEq Guard] {g : Guard} {u : Coro} {m : Mutex.State Coro Ctx Cv Shared}
    (absent : s.mtx g = none) (quiet : ∀ h, Owned s.mutex h → ∀ v, s.mutex.owns v = false)
    (owned : ∀ h, Owned s.mutex h → ∃ h', Owned m h') (mine : m.owns u = true) :
    Inv { s with
      mutex := m
      mtx := Function.update s.mtx g (some s.acquired.length)
      acquired := s.acquired ++ [u] } := by
  have longer : (s.acquired ++ [u]).length = s.acquired.length + 1 := List.length_append
  have fresh : s.unlocks s.acquired.length = 0 := inv.called _ (Nat.le_refl _)
  refine ⟨?_,?_,fun once => ?_⟩
  · intro g' n here
    dsimp only at here ⊢
    rw [longer]
    by_cases same : g' = g
    · rw [same,Function.update_self,Option.some.injEq] at here
      omega
    · rw [Function.update_of_ne same] at here
      have bound := inv.live g' n here
      omega
  · intro n beyond
    dsimp only at beyond
    rw [longer] at beyond
    exact inv.called n (by omega)
  · have sound := inv.sound once
    obtain ⟨h,before⟩ := sound.owned
    have closed := sound.closed (quiet h before)
    -- the acquisition is the only open one
    have alone : ∀ n, n < s.acquired.length + 1 → s.unlocks n = 0 → n = s.acquired.length := by
      intro n bound none
      by_contra other
      exact closed n ⟨by omega,none⟩
    refine ⟨⟨once,?_,?_,?_⟩,owned h before,?_⟩
    · intro n bound gone
      dsimp only at bound gone
      rw [longer] at bound
      have other : n ≠ s.acquired.length := by
        intro same
        exact gone g (by rw [Function.update_self,same])
      refine sound.balanced.followed n (by omega) fun g' here => ?_
      have apart : g' ≠ g := by
        intro same
        rw [same,absent] at here
        contradiction
      exact gone g' (by rwa [Function.update_of_ne apart])
    · intro c called
      obtain ⟨bound,proper⟩ := sound.balanced.proper c called
      refine ⟨?_,proper⟩
      dsimp only
      omega
    · rintro n n' ⟨bound,none⟩ ⟨bound',none'⟩
      dsimp only at bound bound'
      rw [longer] at bound bound'
      rw [alone n bound none,alone n' bound' none']
    · intro n v here none
      have bound : n < s.acquired.length + 1 := by
        rw [← longer]
        exact (List.getElem?_eq_some_iff.mp here).1
      dsimp only at here
      rw [alone n bound none,List.getElem?_concat_length,Option.some.injEq] at here
      exact here ▸ mine

private theorem unlocks_append (n m : Nat) (owned : Bool) (state : AwaiterPtr) (calls : List Call) :
    (calls ++ [Call.mk n owned state]).countP (fun c => c.acquisition == m) =
      calls.countP (fun c => c.acquisition == m) + if n = m then 1 else 0 := by
  rw [List.countP_append,List.countP_singleton]
  simp only [beq_iff_eq]

private theorem unlocks_eq_zero {n : Nat} : s.unlocks n = 0 ↔ ∀ c ∈ s.calls, c.acquisition ≠ n := by
  simp only [State.unlocks,List.countP_eq_zero,beq_iff_eq]

private theorem unlocks_congr (same : t.calls = s.calls) (n : Nat) : t.unlocks n = s.unlocks n := by
  rw [State.unlocks,State.unlocks,same]

private theorem destroy_owned [DecidableEq Coro] {m : Mutex.State Coro Ctx Cv Shared} {h : Holder Coro} {u owner : Coro}
    (owned : Owned m h) (mine : m.owns owner = true) :
    Owned (callUnlock m u owner) (.thread u) := by
  obtain ⟨rfl,outside⟩ := owned.owner owner mine
  have others : ∀ v, Function.update m.owns owner false v = false := by
    intro v
    by_cases same : v = owner
    · rw [same,Function.update_self]
    · rw [Function.update_of_ne same]
      exact (owned.quiet (u := v) (fun here => same (Holder.thread.inj here).symm)).1
  have nobody : ∀ v, (m.pc v).holding = false := by
    intro v
    by_contra holding
    have same := Holder.thread.inj (owned.holds v (by simpa using holding))
    rw [← same,outside] at holding
    contradiction
  refine ⟨?_,?_,?_,?_,?_,?_,?_⟩
  · refine iff_of_false (fun free => ?_) (by simp)
    have same := owned.free.mp free
    contradiction
  · intro v here
    have gone := here.symm.trans (others v)
    contradiction
  · intro v here
    by_cases same : v = u
    · rw [same]
    · simp only [callUnlock,Function.update_of_ne same,nobody v] at here
      contradiction
  · rintro v here
    cases Holder.thread.inj here
    exact .inr (by simp [callUnlock,Pc.holding])
  · intro v here
    cases here
  · exact fun _ => owned.empty (by simp)
  · intro v here
    by_cases same : v = u
    · simp [callUnlock,same,Pc.exchanging] at here
    · simp only [callUnlock,Function.update_of_ne same] at here ⊢
      exact owned.exchanging v here

theorem Inv.destroy (inv : Inv s) [DecidableEq Coro] [DecidableEq Guard] {u owner : Coro} {g : Guard} {n : Nat}
    (live : s.mtx g = some n) (by' : s.acquired[n]? = some owner) :
    Inv { s with
      mutex := callUnlock s.mutex u owner
      mtx := Function.update s.mtx g none
      calls := s.calls ++ [⟨n,s.mutex.owns owner,s.mutex.state⟩] } := by
  have bound := inv.live g n live
  refine ⟨?_,?_,fun once => ?_⟩
  · intro g' n' here
    dsimp only at here ⊢
    by_cases same : g' = g
    · rw [same] at here
      simp at here
    · rw [Function.update_of_ne same] at here
      exact inv.live g' n' here
  · intro m beyond
    dsimp only at beyond
    have other : n ≠ m := by omega
    rw [State.unlocks,unlocks_append,if_neg other]
    exact inv.called m beyond
  · have counts : ∀ m, s.unlocks m + (if n = m then 1 else 0) ≤ 1 := by
      intro m
      have after := once m
      rwa [State.unlocks,unlocks_append] at after
    have none : s.unlocks n = 0 := by
      have after := counts n
      rw [if_pos rfl] at after
      omega
    have sound := inv.sound fun m => Nat.le_trans (Nat.le_add_right ..) (counts m)
    obtain ⟨h,before⟩ := sound.owned
    have mine := sound.owner n owner by' none
    have locked : s.mutex.state ≠ .nolocked := by
      intro free
      have nobody := before.free.mp free
      rw [(before.owner owner mine).1] at nobody
      contradiction
    -- no acquisition is open afterwards
    have closed : ∀ m, m < s.acquired.length → s.unlocks m + (if n = m then 1 else 0) ≠ 0 := by
      intro m bound' none'
      by_cases same : n = m
      · rw [if_pos same] at none'
        contradiction
      · rw [if_neg same] at none'
        exact same (sound.balanced.exclusive n m ⟨bound,none⟩ ⟨bound',none'⟩)
    refine ⟨⟨once,?_,?_,?_⟩,⟨_,destroy_owned before mine⟩,?_⟩
    · intro m bound' _
      have some := closed m bound'
      have most := counts m
      rw [State.unlocks,unlocks_append]
      change s.unlocks m + _ = 1
      omega
    · intro c called
      rcases List.mem_append.mp called with earlier | last
      · exact sound.balanced.proper c earlier
      · rw [List.mem_singleton.mp last]
        exact ⟨bound,mine,locked⟩
    · rintro m m' ⟨bound',none'⟩ _
      rw [State.unlocks,unlocks_append] at none'
      exact absurd none' (closed m bound')
    · intro m v here none'
      rw [State.unlocks,unlocks_append] at none'
      exact absurd none' (closed m (List.getElem?_eq_some_iff.mp here).1)

section
variable [DecidableEq Coro] [DecidableEq Ctx] [DecidableEq Cv] {m m' : Mutex.State Coro Ctx Cv Shared} {u : Coro}

private theorem advance_owns (outside : ∀ self, m.pc u ≠ .awaitResume self) (moved : advance m u = some m') : m'.owns = m.owns := by
  cases pc : m.pc u with
  | awaitResume self => exact absurd pc (outside self)
  | allLoop cv curHead =>
    cases curHead with
    | _ =>
      simp only [advance,pc,Option.some.injEq] at moved
      rw [← moved]
      rfl
  | _ =>
    simp only [advance,pc] at moved
    repeat' split at moved
    all_goals cases moved
    all_goals rfl

private theorem lock_owns {self : Addr} {x : Ctx} (moved : Mutex.step m (.lock u self x) = some m') : m'.owns = m.owns := by
  simp only [Mutex.step] at moved
  repeat' split at moved
  all_goals cases moved
  rfl

private theorem spurious_owns (moved : Mutex.step m (.spurious u) = some m') : m'.owns = m.owns := by
  simp only [Mutex.step] at moved
  split at moved
  all_goals cases moved
  rfl

private theorem exec_owns {x : Ctx} (moved : Mutex.step m (.exec x) = some m') : m'.owns = m.owns := by
  simp only [Mutex.step] at moved
  repeat' split at moved
  all_goals cases moved
  rfl

end

variable [DecidableEq Coro] [DecidableEq Ctx] [DecidableEq Cv] [DecidableEq Guard]

private theorem step_inv (s t : State Coro Ctx Cv Shared Guard) (a : Action Coro Ctx Guard) (inv : Inv s)
    (moved : step s a = some t) : Inv t := by
  have owned : ∀ {m : Mutex.State Coro Ctx Cv Shared} {b}, Mutex.step s.mutex b = some m → ∀ h, Owned s.mutex h → ∃ h', Owned m h' :=
    fun moved _ owned => ⟨_,owned.step moved⟩
  cases a with
  | lockGuard u self x =>
    obtain ⟨m,locked,rfl⟩ := Option.map_eq_some_iff.mp moved
    exact inv.inside (owned locked) (lock_owns locked)
  | run u =>
    simp only [step] at moved
    split at moved
    next => contradiction
    next outside =>
      obtain ⟨m,advanced,rfl⟩ := Option.map_eq_some_iff.mp moved
      exact inv.inside (owned (b := .step u) advanced) (advance_owns outside advanced)
  | awaitResume u g =>
    simp only [step] at moved
    split at moved
    next self pc absent =>
      obtain ⟨m,advanced,rfl⟩ := Option.map_eq_some_iff.mp moved
      refine inv.acquire absent (fun h before v => ?_) (owned (b := .step u) advanced) ?_
      · have acting := before.acting (t := u) (by simp [pc,Pc.holding])
        by_cases same : v = u
        · rw [same]
          exact acting.2.1
        · rw [acting.1] at before
          exact (before.quiet fun here => same (Holder.thread.inj here).symm).1
      · simp only [advance,pc,Option.some.injEq] at advanced
        rw [← advanced]
        exact Function.update_self ..
    next => contradiction
  | spurious u =>
    obtain ⟨m,failed,rfl⟩ := Option.map_eq_some_iff.mp moved
    exact inv.inside (owned failed) (spurious_owns failed)
  | exec x =>
    obtain ⟨m,popped,rfl⟩ := Option.map_eq_some_iff.mp moved
    exact inv.inside (owned popped) (exec_owns popped)
  | move u source target =>
    simp only [step] at moved
    split at moved
    next absent =>
      obtain ⟨n,live,rfl⟩ := Option.map_eq_some_iff.mp moved
      exact inv.move absent live
    next => contradiction
  | destroy u g =>
    simp only [step] at moved
    split at moved
    next n _ live =>
      obtain ⟨owner,by',rfl⟩ := Option.map_eq_some_iff.mp moved
      exact inv.destroy live by'
    next => contradiction

/-- Of the objects that stem from one acquisition only the first is destroyed. -/
def DestroysOnce (s : State Coro Ctx Cv Shared Guard) : Action Coro Ctx Guard → Prop
  | .destroy _ g => ∀ n, s.mtx g = some n → ∀ c ∈ s.calls, c.acquisition ≠ n
  | _ => True

def Unmoved (_ : State Coro Ctx Cv Shared Guard) : Action Coro Ctx Guard → Prop
  | .move _ _ _ => False
  | _ => True

private theorem step_unlocks {a : Action Coro Ctx Guard} (moved : step s a = some t) :
    t.calls = s.calls ∨ ∃ u g n owned state, a = .destroy u g ∧ s.mtx g = some n ∧ t.calls = s.calls ++ [Call.mk n owned state] := by
  cases a with
  | destroy u g =>
    simp only [step] at moved
    split at moved
    next n _ live =>
      obtain ⟨owner,_,rfl⟩ := Option.map_eq_some_iff.mp moved
      exact .inr ⟨u,g,n,_,_,rfl,live,rfl⟩
    next => contradiction
  | run u | awaitResume u g | move u source target =>
    simp only [step] at moved
    split at moved
    all_goals first
      | contradiction
      | obtain ⟨_,_,rfl⟩ := Option.map_eq_some_iff.mp moved
        exact .inl rfl
  | _ =>
    obtain ⟨m,_,rfl⟩ := Option.map_eq_some_iff.mp moved
    exact .inl rfl

private theorem step_balanced_iff (s t : State Coro Ctx Cv Shared Guard) (a : Action Coro Ctx Guard) (inv : Inv s)
    (balanced : Balanced s) (moved : step s a = some t) : Balanced t ↔ DestroysOnce s a := by
  have sound := (step_inv s t a inv moved).sound
  rcases step_unlocks moved with same | ⟨u,g,n,owned,state,rfl,live,called⟩
  · refine iff_of_true (sound fun n => ?_).balanced ?_
    · rw [State.unlocks,same]
      exact balanced.once n
    · cases a with
      | destroy u g =>
        simp only [step] at moved
        split at moved
        next n _ live =>
          obtain ⟨owner,_,rfl⟩ := Option.map_eq_some_iff.mp moved
          simp at same
        next => contradiction
      | _ => trivial
  · have counts : ∀ m, t.unlocks m = s.unlocks m + if n = m then 1 else 0 := by
      intro m
      rw [State.unlocks,called,unlocks_append,State.unlocks]
    constructor
    · intro after m live'
      cases Option.some.inj (live.symm.trans live')
      have most := after.once n
      rw [counts,if_pos rfl] at most
      exact unlocks_eq_zero.mp (by omega)
    · intro first
      refine (sound fun m => ?_).balanced
      rw [counts]
      by_cases same : n = m
      · subst same
        have none := unlocks_eq_zero.mpr (first n live)
        rw [if_pos rfl]
        omega
      · rw [if_neg same]
        exact balanced.once m

/-- While no object is moved, an acquisition has one object at most, and none after its unlock. -/
structure Unshared (s : State Coro Ctx Cv Shared Guard) : Prop where
  single : ∀ g g' n, s.mtx g = some n → s.mtx g' = some n → g = g'
  uncalled : ∀ g n, s.mtx g = some n → s.unlocks n = 0
  inv : Inv s

private theorem step_unshared (s t : State Coro Ctx Cv Shared Guard) (a : Action Coro Ctx Guard) (unshared : Unshared s)
    (unmoved : Unmoved s a) (moved : step s a = some t) : Unshared t := by
  have after := step_inv s t a unshared.inv moved
  have stays : t.mtx = s.mtx → t.calls = s.calls → Unshared t := by
    intro same same'
    refine ⟨?_,?_,after⟩
    · rw [same]
      exact unshared.single
    · intro g n live
      rw [unlocks_congr same']
      exact unshared.uncalled g n (same ▸ live)
  cases a with
  | move u source target => exact unmoved.elim
  | awaitResume u g =>
    simp only [step] at moved
    split at moved
    next self _ absent =>
      obtain ⟨m,_,rfl⟩ := Option.map_eq_some_iff.mp moved
      have old : ∀ g' n, g' ≠ g → Function.update s.mtx g (some s.acquired.length) g' = some n → s.mtx g' = some n :=
        fun g' n other live => by rwa [Function.update_of_ne other] at live
      have new : ∀ n, Function.update s.mtx g (some s.acquired.length) g = some n → n = s.acquired.length := by
        intro n live
        rw [Function.update_self,Option.some.injEq] at live
        exact live.symm
      have older : ∀ g', g' ≠ g → Function.update s.mtx g (some s.acquired.length) g' ≠ some s.acquired.length := by
        intro g' other live
        exact absurd (unshared.inv.live g' _ (old g' _ other live)) (Nat.lt_irrefl _)
      refine ⟨?_,?_,after⟩
      · intro g₁ g₂ n live live'
        by_cases first : g₁ = g <;> by_cases second : g₂ = g
        · rw [first,second]
        · rw [first] at live
          exact absurd (new n live ▸ live') (older g₂ second)
        · rw [second] at live'
          exact absurd (new n live' ▸ live) (older g₁ first)
        · exact unshared.single g₁ g₂ n (old g₁ n first live) (old g₂ n second live')
      · intro g' n live
        change s.unlocks n = 0
        by_cases same : g' = g
        · rw [same] at live
          rw [new n live]
          exact unshared.inv.called _ (Nat.le_refl _)
        · exact unshared.uncalled g' n (old g' n same live)
    next => contradiction
  | destroy u g =>
    simp only [step] at moved
    split at moved
    next n _ live =>
      obtain ⟨owner,_,rfl⟩ := Option.map_eq_some_iff.mp moved
      have old : ∀ g' m, Function.update s.mtx g none g' = some m → g' ≠ g ∧ s.mtx g' = some m := by
        intro g' m live'
        by_cases same : g' = g
        · rw [same,Function.update_self] at live'
          contradiction
        · exact ⟨same,by rwa [Function.update_of_ne same] at live'⟩
      refine ⟨?_,?_,after⟩
      · intro g₁ g₂ m live₁ live₂
        exact unshared.single g₁ g₂ m (old g₁ m live₁).2 (old g₂ m live₂).2
      · intro g' m live'
        obtain ⟨other,before⟩ := old g' m live'
        have apart : n ≠ m := fun same => other (unshared.single g' g m before (same ▸ live))
        rw [State.unlocks,unlocks_append,if_neg apart]
        exact unshared.uncalled g' m before
    next => contradiction
  | run u =>
    simp only [step] at moved
    split at moved
    next => contradiction
    next =>
      obtain ⟨m,_,rfl⟩ := Option.map_eq_some_iff.mp moved
      exact stays rfl rfl
  | _ =>
    obtain ⟨m,_,rfl⟩ := Option.map_eq_some_iff.mp moved
    exact stays rfl rfl

omit [DecidableEq Coro] [DecidableEq Ctx] [DecidableEq Cv] [DecidableEq Guard] in
private theorem unshared_once {a : Action Coro Ctx Guard} (unshared : Unshared s) : DestroysOnce s a := by
  cases a with
  | destroy u g => exact fun n live => unlocks_eq_zero.mp (unshared.uncalled g n live)
  | _ => trivial

private theorem start_unshared (start : machine.start s) : Unshared s := by
  obtain ⟨fresh,absent,acquired,calls⟩ := start
  have none : ∀ n, s.unlocks n = 0 := by
    intro n
    rw [unlocks_eq_zero,calls]
    simp
  refine ⟨fun g g' n live => ?_,fun _ n _ => none n,fun g n live => ?_,fun n _ => none n,
    fun _ => ⟨⟨?_,?_,?_,?_⟩,⟨_,fresh_owned _ fresh⟩,?_⟩⟩
  · rw [absent] at live
    contradiction
  · rw [absent] at live
    contradiction
  · intro n
    rw [none]
    exact Nat.zero_le 1
  · intro n bound
    rw [acquired] at bound
    contradiction
  · rw [calls]
    simp
  · rintro n m ⟨bound,_⟩
    rw [acquired] at bound
    contradiction
  · intro n u here
    rw [acquired] at here
    contradiction

/-- In every run: each acquisition is followed by one unlock, for its owner and with the
mutex locked, and no two overlap, exactly when of the objects of one acquisition only
one is destroyed; so it is where no object is moved. -/
theorem balanced_iff (actions : List (Action Coro Ctx Guard)) (s t : State Coro Ctx Cv Shared Guard) (start : machine.start s)
    (ran : machine.run s actions = some t) :
    (machine.Always Balanced s actions ↔ machine.Meets DestroysOnce s actions) ∧
      (machine.Meets Unmoved s actions → machine.Always Balanced s actions) := by
  have unshared := start_unshared start
  have none : ∀ n, s.unlocks n = 0 := by
    intro n
    rw [unlocks_eq_zero,start.2.2.2]
    simp
  have exact : machine.Always Balanced s actions ↔ machine.Meets DestroysOnce s actions :=
    Machine.always_iff_meets Inv step_inv step_balanced_iff actions s t ran unshared.inv
      (unshared.inv.sound fun n => by rw [none]; exact Nat.zero_le 1).balanced
  refine ⟨exact,fun unmoved => exact.mpr ?_⟩
  exact Machine.Meets.weaken Unshared step_unshared (fun _ _ _ unshared _ _ => unshared_once unshared) actions s t ran
    unshared unmoved

def initial : State Bool Unit Unit Bool Bool := ⟨Mutex.initial,fun _ => none,[],[]⟩

private theorem initial_start : machine.start initial := ⟨initial_fresh,fun _ => rfl,rfl,rfl⟩

theorem scoped_balanced :
    machine.Always Balanced initial [.lockGuard false 0 (),.run false,.run false,.run false,.awaitResume false false,
      .destroy false false,.run false,.run false,.run false] :=
  (balanced_iff _ _ _ initial_start rfl).2 (by simp [Machine.Meets,Unmoved])

/-- The guard is moved and both objects are destroyed: the second unlock finds the mutex free. -/
theorem moved_unbalanced :
    ¬ machine.Always Balanced initial [.lockGuard false 0 (),.run false,.run false,.run false,.awaitResume false false,
      .move false false true,.destroy false true,.run false,.run false,.run false,.destroy false false] := by
  intro always
  have last := always.last rfl
  have once := last.once 0
  contradiction

end
end TinyCoro.Mutex.Guards
