import TinyCoro.Comp.CondVarWaiters

/-! The condition variables with their spin locks and critical sections in single
accesses of memory, and that they are condition variables whose sections are one
step each. -/
namespace TinyCoro.CondVar
open Library Mutex

inductive Store
  | head (value : Option Addr)
  | tail (value : Option Addr)

/-- Where a thread is inside `m_lock.lock()` or a critical section, beyond what its
`Pc` says. `spin` is the loop that waits for the release; the others name the next
access of the section, with the pointers that the thread has loaded. `stores` ends
a section. -/
inductive Section
  | outside
  | spin
  | loadTail
  | storeNext (tail : Addr)
  | loadHead (cur : Addr)
  | loadNext (cur head : Addr)
  | storeHead (next : Option Addr)
  | testHead
  | stores (first : Store) (rest : List Store)

/-- `memory` is what is in memory at any time; its `pc` is past the section from
the access on after which the rest of the section is determined. -/
structure State (Coro Ctx Cv Shared : Type) where
  memory : Mutex.State Coro Ctx Cv Shared
  inside : Coro → Section

variable {Coro Ctx Cv Shared : Type} [DecidableEq Coro] [DecidableEq Ctx] [DecidableEq Cv]

def State.enter (f : State Coro Ctx Cv Shared) (t : Coro) (q : Section) : State Coro Ctx Cv Shared :=
  { f with inside := Function.update f.inside t q }

def State.store (f : State Coro Ctx Cv Shared) (cv : Cv) : Store → State Coro Ctx Cv Shared
  | .head value => { f with memory := { f.memory with head := Function.update f.memory.head cv value } }
  | .tail value => { f with memory := { f.memory with tail := Function.update f.memory.tail cv value } }

def State.abort (f : State Coro Ctx Cv Shared) (t : Coro) : State Coro Ctx Cv Shared :=
  { f with memory := f.memory.goto t .aborted }

/-- The awaiter is counted among the registrations of the condition variable. -/
def State.linked (f : State Coro Ctx Cv Shared) (t : Coro) (self : Addr) (cv : Cv) (caller : Frame Cv) : State Coro Ctx Cv Shared :=
  { f with memory := { f.memory.goto t (.cvUnlock self cv caller) with
    registrations := Function.update f.memory.registrations cv (f.memory.registrations cv ++ [self]) } }

def State.advance (f : State Coro Ctx Cv Shared) (t : Coro) : Option (State Coro Ctx Cv Shared) :=
  (Mutex.advance f.memory t).map fun m => { f with memory := m }

/-- The first access of a function, of `m_lock.lock()` or of a section. -/
def first (f : State Coro Ctx Cv Shared) (t : Coro) : Option (State Coro Ctx Cv Shared) :=
  match f.memory.pc t with
  | .cvLock _ cv _ | .oneLock cv | .allLock cv =>
    -- the exchange of a lock that is set leaves it set
    if f.memory.lock cv then some (f.enter t .spin) else f.advance t
  | .cvLink self cv caller =>
    match f.memory.tail cv with
    | none => some ((f.linked t self cv caller).enter t (.stores (.tail (some self)) [.head (some self)]))
    | some _ => some (f.enter t .loadTail)
  | .oneTake cv =>
    match f.memory.head cv with
    | none => some { f with memory := f.memory.goto t (.oneUnlock cv none) }
    | some cur => some (f.enter t (.loadHead cur))
  | .allTake cv =>
    some (State.enter { f with memory := { f.memory.goto t (.allUnlock cv (f.memory.head cv)) with
      taken := Function.update f.memory.taken cv (f.memory.registrations cv).length } } t (.stores (.tail none) [.head none]))
  | _ => f.advance t

def access (f : State Coro Ctx Cv Shared) (t : Coro) : Option (State Coro Ctx Cv Shared) :=
  match f.inside t with
  | .outside => first f t
  | .spin =>
    match f.memory.pc t with
    | .cvLock _ cv _ | .oneLock cv | .allLock cv => some (f.enter t (if f.memory.lock cv then .spin else .outside))
    | _ => none
  | .loadTail =>
    match f.memory.pc t with
    | .cvLink _ cv _ => some (match f.memory.tail cv with | none => f.abort t | some tail => f.enter t (.storeNext tail))
    | _ => none
  | .storeNext tail =>
    match f.memory.pc t with
    | .cvLink self cv caller =>
      let g := f.linked t self cv caller
      some (State.enter { g with memory := { g.memory with next := Function.update g.memory.next tail (some self) } } t
        (.stores (.tail (some self)) []))
    | _ => none
  | .loadHead cur =>
    match f.memory.pc t with
    | .oneTake cv => some (match f.memory.head cv with | none => f.abort t | some head => f.enter t (.loadNext cur head))
    | _ => none
  | .loadNext cur head =>
    match f.memory.pc t with
    | .oneTake cv =>
      some (State.enter { f with memory := { f.memory.goto t (.oneUnlock cv (some cur)) with
        taken := Function.update f.memory.taken cv (f.memory.taken cv + 1) } } t (.storeHead (f.memory.next head)))
    | _ => none
  | .storeHead next => (f.memory.pc t).spins.map fun cv => (f.store cv (.head next)).enter t .testHead
  | .testHead =>
    (f.memory.pc t).spins.map fun cv => f.enter t (if f.memory.head cv = none then .stores (.tail none) [] else .outside)
  | .stores w rest =>
    (f.memory.pc t).spins.map fun cv =>
      (f.store cv w).enter t (match rest with | [] => .outside | w'::rest' => .stores w' rest')

def step (f : State Coro Ctx Cv Shared) : Action Coro Ctx Cv Shared → Option (State Coro Ctx Cv Shared)
  | .step t => access f t
  | a => (Mutex.step f.memory a).map fun m => { f with memory := m }

def Fresh (f : State Coro Ctx Cv Shared) : Prop := Mutex.Fresh f.memory ∧ ∀ t, f.inside t = .outside

def machine (Coro Ctx Cv Shared : Type) [DecidableEq Coro] [DecidableEq Ctx] [DecidableEq Cv] :
    Machine (State Coro Ctx Cv Shared) (Action Coro Ctx Cv Shared) := ⟨Fresh,step⟩

def commits (f : State Coro Ctx Cv Shared) (t : Coro) : Bool :=
  match f.inside t with
  | .outside =>
    match f.memory.pc t with
    | .cvLock _ cv _ | .oneLock cv | .allLock cv => !f.memory.lock cv
    | .cvLink _ cv _ => (f.memory.tail cv).isNone
    | .oneTake cv => (f.memory.head cv).isNone
    | _ => true
  | .storeNext _ | .loadNext _ _ => true
  | _ => false

/-- The steps of whole sections that an access stands for. -/
def shows (f : State Coro Ctx Cv Shared) : Action Coro Ctx Cv Shared → List (Action Coro Ctx Cv Shared)
  | .step t => if commits f t then [.step t] else []
  | a => [a]

/-- The list of a condition variable after the stores that a section has left. -/
def Section.settle (head tail : Option Addr) : Section → Option Addr × Option Addr
  | .storeHead next => (next,if next = none then none else tail)
  | .testHead => (head,if head = none then none else tail)
  | .stores w rest =>
    (w::rest).foldl (fun lists w => match w with | .head value => (value,lists.2) | .tail value => (lists.1,value)) (head,tail)
  | _ => (head,tail)

def lists (s : Mutex.State Coro Ctx Cv Shared) (head tail : Cv → Option Addr) : Mutex.State Coro Ctx Cv Shared :=
  { s with head := head, tail := tail }

def locks : Pc Cv → Option Cv
  | .cvLock _ cv _ | .oneLock cv | .allLock cv => some cv
  | _ => none

/-- At the first access of a section to the list. -/
def atLists : Pc Cv → Bool
  | .cvLink _ _ _ | .oneTake _ | .allTake _ => true
  | _ => false

section
variable {s s' : Mutex.State Coro Ctx Cv Shared} {t : Coro}

/-- Outside the sections no step looks at the lists of the condition variables. -/
theorem advance_lists (head tail : Cv → Option Addr) (outside : atLists (s.pc t) = false) :
    Mutex.advance (lists s head tail) t = (Mutex.advance s t).map fun s => lists s head tail := by
  cases pc : s.pc t with
  | cvLink | oneTake | allTake => simp [pc,atLists] at outside
  | compareExchange self state waker =>
    by_cases same : s.state = state
    · cases state <;> simp [Mutex.advance,lists,pc,same,State.goto]
    · simp [Mutex.advance,lists,pc,same,State.goto]
  | unlockHead caller => cases here : s.resumeListHead <;> simp [Mutex.advance,lists,pc,here,State.goto]
  | unlockCompareExchange caller =>
    by_cases same : s.state = lockedNoWaiting <;> simp [Mutex.advance,lists,pc,same,State.goto]
  | unlockExchange caller =>
    cases here : s.state with
    | nolocked => simp [Mutex.advance,lists,pc,here,State.goto]
    | locked queue => cases queue <;> simp [Mutex.advance,lists,pc,here,State.goto]
  | resume self caller => cases here : s.kind self <;> simp [Mutex.advance,lists,pc,here,State.goto,State.ready]
  | cvAwaitSuspend self => cases here : s.kind self <;> simp [Mutex.advance,lists,pc,here,State.goto,State.ready]
  | cvLock self cv caller => cases here : s.lock cv <;> simp [Mutex.advance,lists,pc,here,State.goto]
  | oneLock cv => cases here : s.lock cv <;> simp [Mutex.advance,lists,pc,here,State.goto]
  | allLock cv => cases here : s.lock cv <;> simp [Mutex.advance,lists,pc,here,State.goto]
  | allLoop cv cur => cases cur <;> simp [Mutex.advance,lists,pc,State.goto]
  | awaitResume | unlock | cvRegisterWait =>
    simp [Mutex.advance,lists,pc,State.goto,State.registered]
    rfl
  | _ => simp [Mutex.advance,lists,pc,State.goto]

private theorem step_lists (head tail : Cv → Option Addr) {a : Action Coro Ctx Cv Shared} (other : ∀ t, a ≠ .step t) :
    Mutex.step (lists s head tail) a = (Mutex.step s a).map fun s => lists s head tail := by
  cases a with
  | step t => exact absurd rfl (other t)
  | exec x =>
    cases queue : s.contexts.taskQueue x with
    | nil => simp [Mutex.step,lists,queue]
    | cons handle rest => cases pc : s.pc handle <;> simp [Mutex.step,lists,queue,pc,State.goto]
  | lock t self x =>
    cases pc : s.pc t <;> cases here : s.live self <;> simp [Mutex.step,lists,pc,here,State.goto,State.construct]
  | tryLock t =>
    cases pc : s.pc t <;> by_cases here : s.state = .nolocked <;> simp [Mutex.step,lists,pc,here]
  | unlock t => cases pc : s.pc t <;> cases here : s.owns t <;> simp [Mutex.step,lists,pc,here,State.goto]
  | wait t self x cv cond =>
    cases pc : s.pc t <;> cases here : s.owns t <;> cases live : s.live self <;>
      simp [Mutex.step,lists,pc,here,live,State.goto,State.construct]
  | modify t shared => cases pc : s.pc t <;> cases here : s.owns t <;> simp [Mutex.step,lists,pc,here]
  | notifyOne t cv | notifyAll t cv | spurious t => cases pc : s.pc t <;> simp [Mutex.step,lists,pc,State.goto]

end

/-- What a thread inside a lock or a section has found in the list. -/
def Fits (m : Mutex.State Coro Ctx Cv Shared) (p : Pc Cv) : Section → Prop
  | .outside => True
  | .spin => (locks p).isSome = true
  | .loadTail => ∃ self cv caller, p = .cvLink self cv caller ∧ m.tail cv ≠ none
  | .storeNext tail => ∃ self cv caller, p = .cvLink self cv caller ∧ m.tail cv = some tail
  | .loadHead cur => ∃ cv, p = .oneTake cv ∧ m.head cv = some cur
  | .loadNext cur head => ∃ cv, p = .oneTake cv ∧ m.head cv = some cur ∧ head = cur
  | .storeHead _ | .testHead | .stores _ _ => p.spins.isSome = true ∧ atLists p = false

/-- The thread inside a section of a condition variable has the stores left that lead
from its list in memory to the one after the section; without such a thread the two
are the same. -/
structure Related (f : State Coro Ctx Cv Shared) (s : Mutex.State Coro Ctx Cv Shared) : Prop where
  rest : f.memory = lists s f.memory.head f.memory.tail
  owner : ∀ t k, (s.pc t).spins = some k → (s.head k,s.tail k) = (f.inside t).settle (f.memory.head k) (f.memory.tail k)
  free : ∀ k, (∀ t, (s.pc t).spins ≠ some k) → s.head k = f.memory.head k ∧ s.tail k = f.memory.tail k
  fits : ∀ t, Fits f.memory (s.pc t) (f.inside t)
  spinning : Spinning s

section
variable {f f' : State Coro Ctx Cv Shared} {s s' : Mutex.State Coro Ctx Cv Shared} {t : Coro}

omit [DecidableEq Coro] [DecidableEq Ctx] [DecidableEq Cv] in
theorem Related.pc (related : Related f s) : f.memory.pc = s.pc := by
  rw [related.rest]
  rfl

omit [DecidableEq Coro] [DecidableEq Ctx] [DecidableEq Cv] in
theorem Related.lock (related : Related f s) : f.memory.lock = s.lock := by
  rw [related.rest]
  rfl

omit [DecidableEq Coro] [DecidableEq Ctx] [DecidableEq Cv] in
theorem Fits.keep {m m' : Mutex.State Coro Ctx Cv Shared} {p : Pc Cv} {q : Section} (fits : Fits m p q)
    (same : ∀ k, p.spins = some k → m'.head k = m.head k ∧ m'.tail k = m.tail k) : Fits m' p q := by
  cases q with
  | outside | spin | storeHead | testHead | stores => exact fits
  | loadTail | storeNext =>
    obtain ⟨self,cv,caller,rfl,found⟩ := fits
    exact ⟨self,cv,caller,rfl,by rwa [(same cv rfl).2]⟩
  | loadHead =>
    obtain ⟨cv,rfl,found⟩ := fits
    exact ⟨cv,rfl,by rwa [(same cv rfl).1]⟩
  | loadNext =>
    obtain ⟨cv,rfl,found,loaded⟩ := fits
    exact ⟨cv,rfl,by rwa [(same cv rfl).1],loaded⟩

omit [DecidableEq Coro] [DecidableEq Ctx] [DecidableEq Cv] in
theorem Fits.outside {m : Mutex.State Coro Ctx Cv Shared} {p : Pc Cv} {q : Section} (fits : Fits m p q)
    (unlocked : locks p = none) (spins : p.spins = none) : q = .outside := by
  cases q with
  | outside => rfl
  | spin => simp [Fits,unlocked] at fits
  | storeHead | testHead | stores => simp [Fits,spins] at fits
  | loadTail | storeNext =>
    obtain ⟨_,_,_,rfl,_⟩ := fits
    contradiction
  | loadHead | loadNext =>
    obtain ⟨_,rfl,_⟩ := fits
    contradiction

omit [DecidableEq Ctx] [DecidableEq Cv] in
theorem Related.move (related : Related f s) {p : Pc Cv} {q : Section} (spinning : Spinning s')
    (rest : f'.memory = lists s' f'.memory.head f'.memory.tail) (pc : s'.pc = Function.update s.pc t p)
    (inside : f'.inside = Function.update f.inside t q)
    (others : ∀ k, (s.pc t).spins ≠ some k → f'.memory.head k = f.memory.head k ∧ f'.memory.tail k = f.memory.tail k ∧
      s'.head k = s.head k ∧ s'.tail k = s.tail k)
    (owner : ∀ k, p.spins = some k → (s.pc t).spins = some k →
      (s'.head k,s'.tail k) = q.settle (f'.memory.head k) (f'.memory.tail k))
    (enters : ∀ k, p.spins = some k → (s.pc t).spins ≠ some k → q = .outside ∧ s.lock k = false)
    (leaves : ∀ k, (s.pc t).spins = some k → p.spins ≠ some k → s'.head k = f'.memory.head k ∧ s'.tail k = f'.memory.tail k)
    (fits : Fits f'.memory p q) : Related f' s' := by
  have away : ∀ u, u ≠ t → s'.pc u = s.pc u ∧ f'.inside u = f.inside u := by
    intro u other
    rw [pc,inside,Function.update_of_ne other,Function.update_of_ne other]
    exact ⟨rfl,rfl⟩
  have here : s'.pc t = p ∧ f'.inside t = q := by
    rw [pc,inside,Function.update_self,Function.update_self]
    exact ⟨rfl,rfl⟩
  -- another thread's section is of another condition variable
  have apart : ∀ u k, u ≠ t → (s.pc u).spins = some k → (s.pc t).spins ≠ some k :=
    fun u k other spins mine => other (related.spinning.single u t k spins mine)
  refine ⟨rest,?_,?_,?_,spinning⟩
  · intro u k spins
    by_cases same : u = t
    · subst same
      rw [here.1] at spins
      rw [here.2]
      by_cases was : (s.pc u).spins = some k
      · exact owner k spins was
      · obtain ⟨rfl,unlocked⟩ := enters k spins was
        obtain ⟨heads,tails,heads',tails'⟩ := others k was
        have before := related.free k fun v holds => by
          rw [related.spinning.locked v k holds] at unlocked
          contradiction
        rw [heads,tails,heads',tails',before.1,before.2]
        rfl
    · rw [(away u same).1] at spins
      rw [(away u same).2]
      obtain ⟨heads,tails,heads',tails'⟩ := others k (apart u k same spins)
      rw [heads,tails,heads',tails']
      exact related.owner u k spins
  · intro k nobody
    by_cases was : (s.pc t).spins = some k
    · exact leaves k was fun still => nobody t (here.1 ▸ still)
    · obtain ⟨heads,tails,heads',tails'⟩ := others k was
      rw [heads,tails,heads',tails']
      refine related.free k fun u spins => ?_
      have other : u ≠ t := fun same => was (same ▸ spins)
      exact nobody u ((away u other).1 ▸ spins)
  · intro u
    by_cases same : u = t
    · subst same
      rw [here.1,here.2]
      exact fits
    · rw [(away u same).1,(away u same).2]
      refine (related.fits u).keep fun k spins => ?_
      have unchanged := others k (apart u k same spins)
      exact ⟨unchanged.1,unchanged.2.1⟩

omit [DecidableEq Ctx] [DecidableEq Cv] in
theorem Related.stay (related : Related f s) {q : Section} (rest : f'.memory = lists s f'.memory.head f'.memory.tail)
    (inside : f'.inside = Function.update f.inside t q)
    (others : ∀ k, (s.pc t).spins ≠ some k → f'.memory.head k = f.memory.head k ∧ f'.memory.tail k = f.memory.tail k)
    (owner : ∀ k, (s.pc t).spins = some k → (s.head k,s.tail k) = q.settle (f'.memory.head k) (f'.memory.tail k))
    (fits : Fits f'.memory (s.pc t) q) : Related f' s := by
  refine related.move (p := s.pc t) related.spinning rest (Function.update_eq_self t s.pc).symm inside ?_
    (fun k spins _ => owner k spins) (fun k spins none => absurd spins none) (fun k spins none => absurd spins none) fits
  intro k other
  exact ⟨(others k other).1,(others k other).2,rfl,rfl⟩

omit [DecidableEq Ctx] [DecidableEq Cv] in
theorem Related.load (related : Related f s) {q : Section}
    (owner : ∀ k, (s.pc t).spins = some k → (s.head k,s.tail k) = q.settle (f.memory.head k) (f.memory.tail k))
    (fits : Fits f.memory (s.pc t) q) : Related (f.enter t q) s :=
  related.stay related.rest rfl (fun _ _ => ⟨rfl,rfl⟩) owner fits

/-- What a step of a thread to `p` is for the locks: none, the call of `lock`, its
success, or `unlock`. -/
inductive Turn (s s' : Mutex.State Coro Ctx Cv Shared) (t : Coro) (p : Pc Cv) : Prop
  | keeps (lock : s'.lock = s.lock) (before : locks (s.pc t) = none) (after : locks p = none) (spins : p.spins = (s.pc t).spins)
  | calls (cv : Cv) (lock : s'.lock = s.lock) (before : locks (s.pc t) = none) (outside : (s.pc t).spins = none)
      (after : locks p = some cv)
  | acquires (cv : Cv) (before : locks (s.pc t) = some cv) (free : s.lock cv = false)
      (lock : s'.lock = Function.update s.lock cv true) (after : p.spins = some cv)
  | releases (cv : Cv) (before : (s.pc t).spins = some cv) (lock : s'.lock = Function.update s.lock cv false)
      (after : locks p = none) (outside : p.spins = none)

omit [DecidableEq Cv] in
theorem spins_of_locks {p : Pc Cv} {cv : Cv} (calls : locks p = some cv) : p.spins = none := by
  cases p <;> simp [locks,Pc.spins] at calls ⊢

omit [DecidableEq Cv] in
theorem locks_of_spins {p : Pc Cv} {cv : Cv} (spins : p.spins = some cv) : locks p = none := by
  cases p <;> simp [locks,Pc.spins] at spins ⊢

omit [DecidableEq Cv] in
private theorem finish_locks (caller : Frame Cv) : locks caller.finish = none := by
  induction caller with
  | resume _ _ ih => exact ih
  | _ => rfl

theorem advance_turn (moved : Mutex.advance s t = some s') :
    ∃ p, s'.pc = Function.update s.pc t p ∧ Turn s s' t p ∧
      (atLists (s.pc t) = false → s'.head = s.head ∧ s'.tail = s.tail) := by
  unfold Mutex.advance at moved
  cases pc : s.pc t with
  | cvLock self cv caller | oneLock cv | allLock cv =>
    simp only [pc] at moved
    split at moved
    next => contradiction
    next unlocked =>
      cases moved
      exact ⟨_,rfl,.acquires cv (by rw [pc]; rfl) (by simpa using unlocked) rfl rfl,fun _ => ⟨rfl,rfl⟩⟩
  | cvUnlock self cv caller | allUnlock cv cur =>
    simp only [pc,Option.some.injEq] at moved
    subst moved
    exact ⟨_,rfl,.releases cv (by rw [pc]; rfl) rfl rfl rfl,fun _ => ⟨rfl,rfl⟩⟩
  | oneUnlock cv cur =>
    simp only [pc,Option.some.injEq] at moved
    subst moved
    refine ⟨_,rfl,.releases cv (by rw [pc]; rfl) rfl ?_ ?_,fun _ => ⟨rfl,rfl⟩⟩
    · cases cur <;> rfl
    · cases cur <;> rfl
  | cvRegisterWait self cv caller =>
    simp only [pc,Option.some.injEq] at moved
    subst moved
    exact ⟨_,rfl,.calls cv rfl (by rw [pc]; rfl) (by rw [pc]; rfl) rfl,fun _ => ⟨rfl,rfl⟩⟩
  | cvLink | oneTake | allTake =>
    simp only [pc] at moved
    repeat' split at moved
    all_goals cases moved
    all_goals refine ⟨_,rfl,.keeps rfl (by rw [pc]; rfl) rfl (by rw [pc]; rfl),?_⟩
    all_goals exact fun outside => by simp [atLists] at outside
  | unlockReverse awaiter toResume caller =>
    simp only [pc,Option.some.injEq] at moved
    subst moved
    refine ⟨_,rfl,.keeps rfl (by rw [pc]; rfl) ?_ ?_,fun _ => ⟨rfl,rfl⟩⟩
    · cases s.next awaiter <;> rfl
    · rw [pc]
      cases s.next awaiter <;> rfl
  | allLoop cv cur =>
    cases cur <;> simp only [pc,Option.some.injEq] at moved <;> subst moved
    all_goals exact ⟨_,rfl,.keeps rfl (by rw [pc]; rfl) rfl (by rw [pc]; rfl),fun _ => ⟨rfl,rfl⟩⟩
  | _ =>
    simp only [pc] at moved
    repeat' split at moved
    all_goals cases moved
    all_goals refine ⟨_,rfl,.keeps rfl (by rw [pc]; rfl) ?_ ?_,fun _ => ⟨rfl,rfl⟩⟩
    all_goals try rw [pc]
    all_goals first | rfl | exact finish_locks _ | exact finish_spins _

omit [DecidableEq Coro] [DecidableEq Ctx] in
theorem Turn.enters {p : Pc Cv} (turn : Turn s s' t p) {k : Cv} (spins : p.spins = some k) (other : (s.pc t).spins ≠ some k) :
    (s.pc t).spins = none ∧ s.lock k = false := by
  cases turn with
  | keeps _ _ _ same => exact absurd (same ▸ spins) other
  | calls cv _ _ _ after =>
    rw [spins_of_locks after] at spins
    contradiction
  | acquires cv before free _ after =>
    cases spins.symm.trans after
    exact ⟨spins_of_locks before,free⟩
  | releases cv _ _ _ outside =>
    rw [outside] at spins
    contradiction

theorem Related.advance (related : Related f s) (outside : atLists (s.pc t) = false) (inside : f.inside t = .outside)
    (moved : f.advance t = some f') : ∃ s', Mutex.advance s t = some s' ∧ Related f' s' := by
  obtain ⟨m,lifted,rfl⟩ := Option.map_eq_some_iff.mp moved
  rw [related.rest,advance_lists _ _ outside] at lifted
  obtain ⟨s',advanced,rfl⟩ := Option.map_eq_some_iff.mp lifted
  obtain ⟨p,pc,turn,unchanged⟩ := advance_turn advanced
  obtain ⟨heads,tails⟩ := unchanged outside
  have same : f.inside = Function.update f.inside t .outside := by rw [← inside,Function.update_eq_self]
  refine ⟨s',advanced,related.move (related.spinning.advance advanced) rfl pc same ?_ ?_ ?_ ?_ trivial⟩
  · intro k _
    rw [heads,tails]
    exact ⟨rfl,rfl,rfl,rfl⟩
  · intro k _ spins
    rw [heads,tails,related.owner t k spins,inside]
    rfl
  · exact fun k spins other => ⟨rfl,(turn.enters spins other).2⟩
  · intro k spins _
    have settled := related.owner t k spins
    rw [inside] at settled
    rw [heads,tails]
    exact Prod.mk.inj settled

omit [DecidableEq Coro] [DecidableEq Ctx] [DecidableEq Cv] in
theorem Related.own (related : Related f s) {cv : Cv} (spins : (s.pc t).spins = some cv)
    (unstored : (f.inside t).settle (f.memory.head cv) (f.memory.tail cv) = (f.memory.head cv,f.memory.tail cv)) :
    s.head cv = f.memory.head cv ∧ s.tail cv = f.memory.tail cv := by
  have settled := related.owner t cv spins
  rw [unstored] at settled
  exact Prod.mk.inj settled

/-- The access that makes a section happen. -/
theorem Related.commit (related : Related f s) {p : Pc Cv} {q : Section} {cv : Cv} (advanced : Mutex.advance s t = some s')
    (spins : (s.pc t).spins = some cv) (still : p.spins = some cv) (pc : s'.pc = Function.update s.pc t p)
    (inside : f'.inside = Function.update f.inside t q) (rest : f'.memory = lists s' f.memory.head f.memory.tail)
    (others : ∀ k, k ≠ cv → s'.head k = s.head k ∧ s'.tail k = s.tail k)
    (owner : (s'.head cv,s'.tail cv) = q.settle (f.memory.head cv) (f.memory.tail cv)) (fits : Fits f'.memory p q) : Related f' s' := by
  have heads : f'.memory.head = f.memory.head := by rw [rest]; rfl
  have tails : f'.memory.tail = f.memory.tail := by rw [rest]; rfl
  refine related.move (related.spinning.advance advanced) (by rw [heads,tails,rest]) pc inside ?_ ?_ ?_ ?_ fits
  · intro k other
    have apart : k ≠ cv := fun same => other (same ▸ spins)
    rw [heads,tails]
    exact ⟨rfl,rfl,others k apart⟩
  · intro k here _
    cases still.symm.trans here
    rw [heads,tails]
    exact owner
  · intro k here was
    cases still.symm.trans here
    exact absurd spins was
  · intro k was here
    cases spins.symm.trans was
    exact absurd still here

private theorem Related.linkFirst (related : Related f s) {self : Addr} {cv : Cv} {caller : Frame Cv}
    (pc : s.pc t = .cvLink self cv caller) (inside : f.inside t = .outside) (empty : f.memory.tail cv = none) :
    ∃ s', Mutex.advance s t = some s' ∧
      Related ((f.linked t self cv caller).enter t (.stores (.tail (some self)) [.head (some self)])) s' := by
  have spins : (s.pc t).spins = some cv := by rw [pc]; rfl
  have own := related.own spins (by rw [inside]; rfl)
  have advanced : Mutex.advance s t = some { s.goto t (.cvUnlock self cv caller) with
      head := Function.update s.head cv (some self)
      tail := Function.update s.tail cv (some self)
      registrations := Function.update s.registrations cv (s.registrations cv ++ [self]) } := by
    simp only [Mutex.advance,pc,own.2,empty]
  refine ⟨_,advanced,related.commit (p := .cvUnlock self cv caller) advanced spins rfl rfl rfl ?_ ?_ ?_ ?_⟩
  · simp only [State.enter,State.linked]
    rw [related.rest]
    rfl
  · exact fun k apart => ⟨Function.update_of_ne apart ..,Function.update_of_ne apart ..⟩
  · simp only [Function.update_self]
    rfl
  · simp [Fits,Pc.spins,atLists]

private theorem Related.linkAfter (related : Related f s) {self tail : Addr} {cv : Cv} {caller : Frame Cv}
    (pc : s.pc t = .cvLink self cv caller) (inside : f.inside t = .storeNext tail) (found : f.memory.tail cv = some tail) :
    ∃ s', Mutex.advance s t = some s' ∧
      Related (State.enter { f.linked t self cv caller with memory := { (f.linked t self cv caller).memory with
        next := Function.update (f.linked t self cv caller).memory.next tail (some self) } } t
        (.stores (.tail (some self)) [])) s' := by
  have spins : (s.pc t).spins = some cv := by rw [pc]; rfl
  have own := related.own spins (by rw [inside]; rfl)
  have advanced : Mutex.advance s t = some { s.goto t (.cvUnlock self cv caller) with
      next := Function.update s.next tail (some self)
      tail := Function.update s.tail cv (some self)
      registrations := Function.update s.registrations cv (s.registrations cv ++ [self]) } := by
    simp only [Mutex.advance,pc,own.2,found]
  refine ⟨_,advanced,related.commit (p := .cvUnlock self cv caller) advanced spins rfl rfl rfl ?_ ?_ ?_ ?_⟩
  · simp only [State.enter,State.linked]
    rw [related.rest]
    rfl
  · exact fun k apart => ⟨rfl,Function.update_of_ne apart ..⟩
  · simp only [Function.update_self,State.goto,own.1]
    rfl
  · simp [Fits,Pc.spins,atLists]

private theorem Related.takeNone (related : Related f s) {cv : Cv} (pc : s.pc t = .oneTake cv) (inside : f.inside t = .outside)
    (empty : f.memory.head cv = none) :
    ∃ s', Mutex.advance s t = some s' ∧ Related { f with memory := f.memory.goto t (.oneUnlock cv none) } s' := by
  have spins : (s.pc t).spins = some cv := by rw [pc]; rfl
  have own := related.own spins (by rw [inside]; rfl)
  have advanced : Mutex.advance s t = some (s.goto t (.oneUnlock cv none)) := by simp only [Mutex.advance,pc,own.1,empty]
  have same : f.inside = Function.update f.inside t .outside := by rw [← inside,Function.update_eq_self]
  refine ⟨_,advanced,related.commit (p := .oneUnlock cv none) advanced spins rfl rfl same ?_ (fun _ _ => ⟨rfl,rfl⟩) ?_ trivial⟩
  · rw [related.rest]
    rfl
  · exact Prod.ext own.1 own.2

theorem Related.takeOne (related : Related f s) {cv : Cv} {cur head : Addr} (pc : s.pc t = .oneTake cv)
    (inside : f.inside t = .loadNext cur head) (found : f.memory.head cv = some cur) (again : head = cur) :
    ∃ s', Mutex.advance s t = some s' ∧
      Related (State.enter { f with memory := { f.memory.goto t (.oneUnlock cv (some cur)) with
        taken := Function.update f.memory.taken cv (f.memory.taken cv + 1) } } t (.storeHead (f.memory.next head))) s' := by
  subst again
  have spins : (s.pc t).spins = some cv := by rw [pc]; rfl
  have own := related.own spins (by rw [inside]; rfl)
  have next : f.memory.next = s.next := by rw [related.rest]; rfl
  have advanced : Mutex.advance s t = some { s.goto t (.oneUnlock cv (some head)) with
      head := Function.update s.head cv (s.next head)
      tail := Function.update s.tail cv (if s.next head = none then none else s.tail cv)
      taken := Function.update s.taken cv (s.taken cv + 1) } := by
    simp only [Mutex.advance,pc,own.1,found]
  refine ⟨_,advanced,related.commit (p := .oneUnlock cv (some head)) advanced spins rfl rfl rfl ?_ ?_ ?_ ?_⟩
  · simp only [State.enter]
    rw [related.rest]
    rfl
  · exact fun k apart => ⟨Function.update_of_ne apart ..,Function.update_of_ne apart ..⟩
  · simp only [Function.update_self,Section.settle,next,own.2]
  · simp [Fits,Pc.spins,atLists]

theorem Related.takeAll (related : Related f s) {cv : Cv} (pc : s.pc t = .allTake cv) (inside : f.inside t = .outside) :
    ∃ s', Mutex.advance s t = some s' ∧
      Related (State.enter { f with memory := { f.memory.goto t (.allUnlock cv (f.memory.head cv)) with
        taken := Function.update f.memory.taken cv (f.memory.registrations cv).length } } t
        (.stores (.tail none) [.head none])) s' := by
  have spins : (s.pc t).spins = some cv := by rw [pc]; rfl
  have own := related.own spins (by rw [inside]; rfl)
  have advanced : Mutex.advance s t = some { s.goto t (.allUnlock cv (f.memory.head cv)) with
      head := Function.update s.head cv none
      tail := Function.update s.tail cv none
      taken := Function.update s.taken cv (s.registrations cv).length } := by
    simp only [Mutex.advance,pc,own.1]
  refine ⟨_,advanced,related.commit (p := .allUnlock cv (f.memory.head cv)) advanced spins rfl rfl rfl ?_ ?_ ?_ ?_⟩
  · simp only [State.enter]
    rw [related.rest]
    rfl
  · exact fun k apart => ⟨Function.update_of_ne apart ..,Function.update_of_ne apart ..⟩
  · simp only [Function.update_self]
    rfl
  · simp [Fits,Pc.spins,atLists]

omit [DecidableEq Ctx] in
/-- A store of a section after the access that made it happen. -/
theorem Related.store (related : Related f s) {cv : Cv} {w : Store} {q : Section} (spins : (s.pc t).spins = some cv)
    (owner : (s.head cv,s.tail cv) = q.settle ((f.store cv w).memory.head cv) ((f.store cv w).memory.tail cv))
    (fits : Fits (f.store cv w).memory (s.pc t) q) : Related ((f.store cv w).enter t q) s := by
  refine related.stay (q := q) ?_ ?_ ?_ ?_ fits
  · cases w <;> simp only [State.enter,State.store,lists] <;> rw [related.rest] <;> rfl
  · cases w <;> rfl
  · intro k other
    have apart : k ≠ cv := fun same => other (same ▸ spins)
    cases w with
    | head value => exact ⟨Function.update_of_ne apart ..,rfl⟩
    | tail value => exact ⟨rfl,Function.update_of_ne apart ..⟩
  · intro k here
    cases spins.symm.trans here
    exact owner

/-- Every access is the section's step or none. -/
theorem access_simulates (related : Related f s) (moved : access f t = some f') :
    if commits f t then ∃ s', Mutex.advance s t = some s' ∧ Related f' s' else Related f' s := by
  have fits := related.fits t
  have own := related.owner t
  have pcs := related.pc
  unfold access at moved
  unfold commits
  cases inside : f.inside t with
  | outside =>
    rw [inside] at own
    simp only [inside,first] at moved ⊢
    cases pc : s.pc t with
    | cvLock self cv caller | oneLock cv | allLock cv =>
      simp only [pcs,pc] at moved ⊢
      cases locked : f.memory.lock cv with
      | true =>
        simp only [locked,if_true,Option.some.injEq] at moved
        subst moved
        exact related.load (by simp [pc,Pc.spins]) (by simp [pc,Fits,locks])
      | false =>
        simp only [locked,Bool.false_eq_true,if_false] at moved
        exact related.advance (by rw [pc]; rfl) inside moved
    | cvLink self cv caller =>
      simp only [pcs,pc] at moved ⊢
      cases found : f.memory.tail cv with
      | none =>
        simp only [found,Option.some.injEq] at moved
        subst moved
        exact related.linkFirst pc inside found
      | some tail =>
        simp only [found,Option.some.injEq] at moved
        subst moved
        exact related.load own ⟨self,cv,caller,pc,by simp [found]⟩
    | oneTake cv =>
      simp only [pcs,pc] at moved ⊢
      cases found : f.memory.head cv with
      | none =>
        simp only [found,Option.some.injEq] at moved
        subst moved
        exact related.takeNone pc inside found
      | some cur =>
        simp only [found,Option.some.injEq] at moved
        subst moved
        exact related.load own ⟨cv,pc,found⟩
    | allTake cv =>
      simp only [pcs,pc,Option.some.injEq] at moved ⊢
      subst moved
      exact related.takeAll pc inside
    | _ =>
      simp only [pcs,pc] at moved ⊢
      exact related.advance (by rw [pc]; rfl) inside moved
  | spin =>
    rw [inside] at fits own
    simp only [inside,pcs] at moved ⊢
    cases pc : s.pc t with
    | cvLock self cv caller | oneLock cv | allLock cv =>
      simp only [pc,Option.some.injEq] at moved
      subst moved
      refine related.load (by simp [pc,Pc.spins]) ?_
      split
      · simp [pc,Fits,locks]
      · trivial
    | _ => simp [pc,Fits,locks] at fits
  | loadTail =>
    rw [inside] at fits own
    obtain ⟨self,cv,caller,pc,found⟩ := fits
    obtain ⟨tail,found⟩ := Option.ne_none_iff_exists'.mp found
    simp only [inside,pcs,pc,found,Option.some.injEq] at moved ⊢
    subst moved
    exact related.load own ⟨self,cv,caller,pc,found⟩
  | storeNext tail =>
    rw [inside] at fits own
    obtain ⟨self,cv,caller,pc,found⟩ := fits
    simp only [inside,pcs,pc,Option.some.injEq] at moved ⊢
    subst moved
    exact related.linkAfter pc inside found
  | loadHead cur =>
    rw [inside] at fits own
    obtain ⟨cv,pc,found⟩ := fits
    simp only [inside,pcs,pc,found,Option.some.injEq] at moved ⊢
    subst moved
    exact related.load own ⟨cv,pc,found,rfl⟩
  | loadNext cur head =>
    rw [inside] at fits own
    obtain ⟨cv,pc,found,again⟩ := fits
    simp only [inside,pcs,pc,Option.some.injEq] at moved ⊢
    subst moved
    exact related.takeOne pc inside found again
  | storeHead next =>
    rw [inside] at fits own
    obtain ⟨cv,spins⟩ := Option.isSome_iff_exists.mp fits.1
    simp only [inside,pcs,spins,Option.map_some,Option.some.injEq] at moved ⊢
    subst moved
    refine related.store spins ?_ fits
    rw [own cv spins]
    simp [State.store,Section.settle]
  | testHead =>
    rw [inside] at fits own
    obtain ⟨cv,spins⟩ := Option.isSome_iff_exists.mp fits.1
    simp only [inside,pcs,spins,Option.map_some,Option.some.injEq] at moved ⊢
    subst moved
    refine related.load ?_ ?_
    · intro k here
      cases spins.symm.trans here
      rw [own cv spins]
      split
      next empty => simp [Section.settle,empty]
      next some => simp [Section.settle,some]
    · split
      · exact fits
      · trivial
  | stores w rest =>
    rw [inside] at fits own
    obtain ⟨cv,spins⟩ := Option.isSome_iff_exists.mp fits.1
    simp only [inside,pcs,spins,Option.map_some,Option.some.injEq] at moved ⊢
    subst moved
    refine related.store spins ?_ ?_
    · rw [own cv spins]
      cases rest <;> cases w <;> simp [Section.settle,State.store]
    · cases rest with
      | nil => trivial
      | cons w' rest' => exact fits

theorem step_turn {a : Action Coro Ctx Cv Shared} (other : ∀ t, a ≠ .step t) (moved : Mutex.step s a = some s') :
    s'.head = s.head ∧ s'.tail = s.tail ∧ ∃ t p, s'.pc = Function.update s.pc t p ∧ Turn s s' t p ∧
      (s.pc t).spins = none ∧ locks (s.pc t) = none ∧ p.spins = none := by
  cases a with
  | step t => exact absurd rfl (other t)
  | tryLock t | modify t shared =>
    simp only [Mutex.step] at moved
    split at moved
    next pc =>
      split at moved
      all_goals cases moved
      all_goals refine ⟨rfl,rfl,t,.idle,?_,.keeps rfl (by rw [pc]; rfl) rfl (by rw [pc]),by rw [pc]; rfl,by rw [pc]; rfl,rfl⟩
      all_goals exact (Function.update_eq_self_iff.mpr pc.symm).symm
    next => contradiction
  | notifyOne t cv | notifyAll t cv =>
    simp only [Mutex.step] at moved
    split at moved
    next pc =>
      cases moved
      refine ⟨rfl,rfl,t,_,rfl,.calls cv rfl (by rw [pc]; rfl) (by rw [pc]; rfl) rfl,by rw [pc]; rfl,by rw [pc]; rfl,rfl⟩
    next => contradiction
  | exec x =>
    simp only [Mutex.step] at moved
    repeat' split at moved
    all_goals try contradiction
    next _ handle _ _ _ self pc =>
      cases moved
      exact ⟨rfl,rfl,handle,_,rfl,.keeps rfl (by rw [pc]; rfl) rfl (by rw [pc]; rfl),by rw [pc]; rfl,by rw [pc]; rfl,rfl⟩
  | lock t | unlock t | wait t | spurious t =>
    simp only [Mutex.step] at moved
    split at moved
    next pc =>
      try split at moved
      all_goals cases moved
      all_goals exact ⟨rfl,rfl,t,_,rfl,.keeps rfl (by rw [pc]; rfl) rfl (by rw [pc]; rfl),by rw [pc]; rfl,by rw [pc]; rfl,rfl⟩
    next => contradiction

/-- Every action but the steps of the functions is the same for both. -/
theorem other_simulates (related : Related f s) {a : Action Coro Ctx Cv Shared} (other : ∀ t, a ≠ .step t)
    (moved : (Mutex.step f.memory a).map (fun m => { f with memory := m }) = some f') :
    ∃ s', Mutex.step s a = some s' ∧ Related f' s' := by
  obtain ⟨m,lifted,rfl⟩ := Option.map_eq_some_iff.mp moved
  rw [related.rest,step_lists _ _ other] at lifted
  obtain ⟨s',stepped,rfl⟩ := Option.map_eq_some_iff.mp lifted
  obtain ⟨heads,tails,t,p,pc,turn,spins,unlocked,after⟩ := step_turn other stepped
  have inside : f.inside t = .outside := (related.fits t).outside unlocked spins
  have same : f.inside = Function.update f.inside t .outside := by rw [← inside,Function.update_eq_self]
  refine ⟨s',stepped,related.move (related.spinning.step stepped) rfl pc same ?_ ?_ ?_ ?_ trivial⟩
  · intro k _
    rw [heads,tails]
    exact ⟨rfl,rfl,rfl,rfl⟩
  · intro k here
    rw [after] at here
    contradiction
  · intro k here
    rw [after] at here
    contradiction
  · intro k was
    rw [spins] at was
    contradiction

end

omit [DecidableEq Coro] [DecidableEq Ctx] [DecidableEq Cv] in
theorem fresh_related (f : State Coro Ctx Cv Shared) (fresh : Fresh f) : Related f f.memory := by
  obtain ⟨memory,inside⟩ := fresh
  refine ⟨rfl,?_,fun _ _ => ⟨rfl,rfl⟩,fun t => ?_,fresh_spinning f.memory memory⟩
  · intro t k _
    rw [inside t]
    rfl
  · rw [inside t]
    trivial

/-- The condition variables in single accesses of memory refine those with whole sections. -/
theorem sections_simulate : (machine Coro Ctx Cv Shared).Simulates (Mutex.machine Coro Ctx Cv Shared) shows Related := by
  constructor
  · exact fun f fresh => ⟨f.memory,fresh.1,fresh_related f fresh⟩
  · intro f f' s a related moved
    cases a with
    | step t =>
      have simulated := access_simulates related moved
      simp only [shows]
      split
      next commits =>
        rw [if_pos commits] at simulated
        rw [Machine.run_single]
        exact simulated
      next silent =>
        rw [if_neg silent] at simulated
        exact ⟨s,rfl,simulated⟩
    | _ =>
      simp only [shows,Machine.run_single]
      exact other_simulates related (fun t => by simp) moved

/-- Each access of a run is a step of the whole sections or none. -/
theorem sections_are_atomic (f f' : State Coro Ctx Cv Shared) (actions : List (Action Coro Ctx Cv Shared)) (fresh : Fresh f)
    (ran : (machine Coro Ctx Cv Shared).run f actions = some f') :
    ∃ s, (Mutex.machine Coro Ctx Cv Shared).run f.memory ((machine Coro Ctx Cv Shared).trace shows f actions) = some s ∧
      Related f' s :=
  sections_simulate.run actions f f' f.memory (fresh_related f fresh) ran

def initial : State Bool Unit Unit Bool := ⟨Mutex.initial,fun _ => .outside⟩

theorem initial_fresh : Fresh initial := ⟨Mutex.initial_fresh,fun _ => rfl⟩

/-- A coroutine waits on the condition variable and spins while another one finds no
waiter in its section; then it stores `m_tail`. -/
def waitAgainstNotify : List (Action Bool Unit Unit Bool) :=
  [.tryLock false,.wait false 1 () () none,.step false,.step false,.notifyOne true (),.step true,.step false,.step false,
    .step true,.step true,.step false,.step false,.step false,.step false]

theorem wait_against_notify_atomic : ∃ f s,
    (machine Bool Unit Unit Bool).run initial waitAgainstNotify = some f ∧
      (f.memory.head (),f.memory.tail (),f.memory.lock ()) = (none,some 1,true) ∧
      (Mutex.machine Bool Unit Unit Bool).run Mutex.initial
        ((machine Bool Unit Unit Bool).trace shows initial waitAgainstNotify) = some s ∧ Related f s := by
  have ran : ((machine Bool Unit Unit Bool).run initial waitAgainstNotify).map
      (fun f => (f.memory.head (),f.memory.tail (),f.memory.lock ())) = some (none,some 1,true) := by decide
  obtain ⟨f,reached,shape⟩ := Option.map_eq_some_iff.mp ran
  obtain ⟨s,shown,related⟩ := sections_are_atomic initial f waitAgainstNotify initial_fresh reached
  exact ⟨f,s,reached,shape,shown,related⟩

end TinyCoro.CondVar
