import TinyCoro.Comp.SpinLock
import TinyCoro.Comp.CondVarSections

/-! The spin locks of the condition variables: each is a spin lock, and while it is
free the list it protects is whole. -/
namespace TinyCoro.CondVar
open Library Mutex

variable {Coro Ctx Cv Shared : Type} [DecidableEq Coro] [DecidableEq Ctx] [DecidableEq Cv]

def spinPc (k : Cv) (p : Pc Cv) (q : Section) : SpinLock.Pc :=
  if p.spins = some k then .holding
  else if locks p = some k then (match q with | .spin => .spin | _ => .exchange)
  else .idle

def spinLock (k : Cv) (f : State Coro Ctx Cv Shared) : SpinLock.State Coro where
  lock_ := f.memory.lock k
  pc t := spinPc k (f.memory.pc t) (f.inside t)

section
variable {f g : State Coro Ctx Cv Shared} {t : Coro}

omit [DecidableEq Ctx] in
private theorem spinLock_moved {k : Cv} {p : Pc Cv} {q : Section} (pc : g.memory.pc = Function.update f.memory.pc t p)
    (inside : g.inside = Function.update f.inside t q) :
    spinLock k g = { (spinLock k f).goto t (spinPc k p q) with lock_ := g.memory.lock k } := by
  simp only [spinLock,SpinLock.State.goto,SpinLock.State.mk.injEq,true_and]
  funext u
  rw [pc,inside]
  by_cases same : u = t
  · subst same
    rw [Function.update_self,Function.update_self,Function.update_self]
  · rw [Function.update_of_ne same,Function.update_of_ne same,Function.update_of_ne same]

omit [DecidableEq Ctx] in
private theorem spinLock_same {k : Cv} {p : Pc Cv} {q : Section} (pc : g.memory.pc = Function.update f.memory.pc t p)
    (inside : g.inside = Function.update f.inside t q) (lock : g.memory.lock = f.memory.lock)
    (same : spinPc k p q = spinPc k (f.memory.pc t) (f.inside t)) : spinLock k g = spinLock k f := by
  have here : spinPc k p q = (spinLock k f).pc t := same
  rw [spinLock_moved pc inside,lock,here,SpinLock.State.goto,Function.update_eq_self]
  rfl

omit [DecidableEq Coro] [DecidableEq Ctx] in
private theorem spinPc_outside {k : Cv} {p p' : Pc Cv} {q q' : Section} (unlocked : locks p = none) (unlocked' : locks p' = none)
    (spins : p'.spins = p.spins) : spinPc k p' q' = spinPc k p q := by
  simp [spinPc,unlocked,unlocked',spins]

omit [DecidableEq Ctx] in
private theorem spinLock_turn {p : Pc Cv} (turn : Turn f.memory g.memory t p) (pc : g.memory.pc = Function.update f.memory.pc t p)
    (inside : g.inside = f.inside) (quiet : f.inside t = .outside) (k : Cv) :
    spinLock k g = spinLock k f ∨ ∃ b, SpinLock.step (spinLock k f) b = some (spinLock k g) := by
  have inside' : g.inside = Function.update f.inside t .outside := by rw [inside,← quiet,Function.update_eq_self]
  have moved := spinLock_moved (k := k) pc inside'
  cases turn with
  | keeps lock before after spins => exact .inl (spinLock_same pc inside' lock (spinPc_outside before after spins))
  | calls cv lock before outside after =>
    have was : (spinLock k f).pc t = .idle := by simp [spinLock,spinPc,before,outside]
    have still : g.memory.lock k = (spinLock k f).lock_ := congrFun lock k
    have after' := spins_of_locks after
    by_cases same : k = cv
    · subst same
      refine .inr ⟨.lock t,?_⟩
      rw [moved]
      simp [SpinLock.step,was,spinPc,after,after',still,SpinLock.State.goto]
    · refine .inl (spinLock_same pc inside' lock ?_)
      have other : cv ≠ k := Ne.symm same
      simp [spinPc,after,after',before,outside,other]
  | acquires cv before free lock after =>
    have before' := spins_of_locks before
    by_cases same : k = cv
    · subst same
      have was : (spinLock k f).pc t = .exchange := by simp [spinLock,spinPc,before,before',quiet]
      have unlocked : (spinLock k f).lock_ = false := free
      refine .inr ⟨.step t,?_⟩
      rw [moved]
      simp [SpinLock.step,SpinLock.advance,was,unlocked,spinPc,after,lock,SpinLock.State.goto]
    · have other : cv ≠ k := Ne.symm same
      have unlocked := locks_of_spins after
      have here : spinPc k p .outside = (spinLock k f).pc t := by
        simp [spinLock,spinPc,after,before,before',unlocked,other]
      left
      rw [moved,here,SpinLock.State.goto,Function.update_eq_self,lock,Function.update_of_ne same]
      rfl
  | releases cv before lock after outside =>
    have unlocked := locks_of_spins before
    by_cases same : k = cv
    · subst same
      have was : (spinLock k f).pc t = .holding := by simp [spinLock,spinPc,before]
      refine .inr ⟨.unlock t,?_⟩
      rw [moved]
      simp [SpinLock.step,was,spinPc,after,outside,lock,SpinLock.State.goto]
    · have other : cv ≠ k := Ne.symm same
      have here : spinPc k p .outside = (spinLock k f).pc t := by
        simp [spinLock,spinPc,after,before,unlocked,outside,other]
      left
      rw [moved,here,SpinLock.State.goto,Function.update_eq_self,lock,Function.update_of_ne same]
      rfl

/-- Every access is one of the spin lock of each condition variable, or none. -/
theorem access_spins {s : Mutex.State Coro Ctx Cv Shared} (related : Related f s) (moved : access f t = some g) (k : Cv) :
    spinLock k g = spinLock k f ∨ ∃ b, SpinLock.step (spinLock k f) b = some (spinLock k g) := by
  have fits := related.fits t
  rw [← related.pc] at fits
  -- only the place in the section changes, or the thread goes on within the section
  have stays : ∀ p q, locks (f.memory.pc t) = none → locks p = none → p.spins = (f.memory.pc t).spins →
      g.memory.pc = Function.update f.memory.pc t p → g.inside = Function.update f.inside t q →
      g.memory.lock = f.memory.lock → spinLock k g = spinLock k f :=
    fun p q before after spins pc inside lock => spinLock_same pc inside lock (spinPc_outside before after spins)
  have loads : ∀ q, locks (f.memory.pc t) = none → g = f.enter t q → spinLock k g = spinLock k f := by
    rintro q before rfl
    exact stays (f.memory.pc t) q before before rfl (Function.update_eq_self ..).symm rfl rfl
  have stored : ∀ cv w q, (f.memory.pc t).spins = some cv → g = (f.store cv w).enter t q → spinLock k g = spinLock k f := by
    rintro cv w q spins rfl
    have before := locks_of_spins spins
    refine stays (f.memory.pc t) q before before rfl ?_ ?_ ?_
    all_goals cases w <;> simp [State.enter,State.store]
  have advances : f.inside t = .outside → f.advance t = some g →
      spinLock k g = spinLock k f ∨ ∃ b, SpinLock.step (spinLock k f) b = some (spinLock k g) := by
    intro inside advanced
    obtain ⟨m,lifted,rfl⟩ := Option.map_eq_some_iff.mp advanced
    obtain ⟨p,pc,turn,_⟩ := advance_turn lifted
    exact spinLock_turn (g := { f with memory := m }) turn pc rfl inside k
  unfold access at moved
  cases inside : f.inside t with
  | outside =>
    simp only [inside,first] at moved
    cases pc : f.memory.pc t with
    | cvLock self cv caller | oneLock cv | allLock cv =>
      simp only [pc] at moved
      cases locked : f.memory.lock cv with
      | false =>
        simp only [locked,Bool.false_eq_true,if_false] at moved
        exact advances inside moved
      | true =>
        -- the exchange finds the lock set
        simp only [locked,if_true,Option.some.injEq] at moved
        have moved' := spinLock_moved (f := f) (g := g) (k := k) (t := t) (p := f.memory.pc t) (q := .spin)
          (by rw [← moved]; exact (Function.update_eq_self ..).symm) (by rw [← moved]; rfl)
        have still : g.memory.lock = f.memory.lock := by rw [← moved]; rfl
        by_cases same : k = cv
        · subst same
          have was : (spinLock k f).pc t = .exchange := by simp [spinLock,spinPc,pc,inside,locks,Pc.spins]
          have set : (spinLock k f).lock_ = true := locked
          refine .inr ⟨.step t,?_⟩
          rw [moved']
          simp [SpinLock.step,SpinLock.advance,was,set,spinPc,pc,locks,Pc.spins,still,locked,SpinLock.State.goto]
        · have other : cv ≠ k := Ne.symm same
          left
          refine spinLock_same (p := f.memory.pc t) (q := .spin) (t := t) (by rw [← moved]; exact (Function.update_eq_self ..).symm)
            (by rw [← moved]; rfl) still ?_
          simp [spinPc,pc,locks,Pc.spins,other]
    | cvLink self cv caller =>
      simp only [pc] at moved
      split at moved <;> cases moved
      · exact .inl (stays (.cvUnlock self cv caller) _ (by rw [pc]; rfl) rfl (by rw [pc]; rfl) rfl rfl rfl)
      · exact .inl (loads _ (by rw [pc]; rfl) rfl)
    | oneTake cv =>
      simp only [pc] at moved
      split at moved <;> cases moved
      · refine .inl (stays (.oneUnlock cv none) .outside (by rw [pc]; rfl) rfl (by rw [pc]; rfl) rfl ?_ rfl)
        rw [← inside,Function.update_eq_self]
      · exact .inl (loads _ (by rw [pc]; rfl) rfl)
    | allTake cv =>
      simp only [pc,Option.some.injEq] at moved
      subst moved
      exact .inl (stays (.allUnlock cv (f.memory.head cv)) _ (by rw [pc]; rfl) rfl (by rw [pc]; rfl) rfl rfl rfl)
    | _ =>
      simp only [pc] at moved
      exact advances inside moved
  | spin =>
    rw [inside] at fits
    simp only [inside] at moved
    cases pc : f.memory.pc t with
    | cvLock self cv caller | oneLock cv | allLock cv =>
      simp only [pc,Option.some.injEq] at moved
      have moved' := spinLock_moved (f := f) (g := g) (k := k) (t := t) (p := f.memory.pc t)
        (q := if f.memory.lock cv then .spin else .outside)
        (by rw [← moved]; exact (Function.update_eq_self ..).symm) (by rw [← moved]; rfl)
      have still : g.memory.lock = f.memory.lock := by rw [← moved]; rfl
      by_cases same : k = cv
      · subst same
        have was : (spinLock k f).pc t = .spin := by simp [spinLock,spinPc,pc,inside,locks,Pc.spins]
        have here : (spinLock k f).lock_ = f.memory.lock k := rfl
        refine .inr ⟨.step t,?_⟩
        rw [moved',still]
        cases locked : f.memory.lock k <;>
          simp [SpinLock.step,SpinLock.advance,was,here,locked,spinPc,pc,locks,Pc.spins,SpinLock.State.goto]
      · have other : cv ≠ k := Ne.symm same
        left
        refine spinLock_same (p := f.memory.pc t) (q := if f.memory.lock cv then .spin else .outside) (t := t)
          (by rw [← moved]; exact (Function.update_eq_self ..).symm) (by rw [← moved]; rfl) still ?_
        simp [spinPc,pc,locks,Pc.spins,other]
    | _ => simp [pc,Fits,locks] at fits
  | loadTail =>
    rw [inside] at fits
    obtain ⟨self,cv,caller,pc,found⟩ := fits
    obtain ⟨tail,found⟩ := Option.ne_none_iff_exists'.mp found
    simp only [inside,pc,found,Option.some.injEq] at moved
    exact .inl (loads _ (by rw [pc]; rfl) moved.symm)
  | storeNext tail =>
    rw [inside] at fits
    obtain ⟨self,cv,caller,pc,found⟩ := fits
    simp only [inside,pc,Option.some.injEq] at moved
    subst moved
    exact .inl (stays (.cvUnlock self cv caller) _ (by rw [pc]; rfl) rfl (by rw [pc]; rfl) rfl rfl rfl)
  | loadHead cur =>
    rw [inside] at fits
    obtain ⟨cv,pc,found⟩ := fits
    simp only [inside,pc,found,Option.some.injEq] at moved
    exact .inl (loads _ (by rw [pc]; rfl) moved.symm)
  | loadNext cur head =>
    rw [inside] at fits
    obtain ⟨cv,pc,found,again⟩ := fits
    simp only [inside,pc,Option.some.injEq] at moved
    subst moved
    exact .inl (stays (.oneUnlock cv (some cur)) _ (by rw [pc]; rfl) rfl (by rw [pc]; rfl) rfl rfl rfl)
  | storeHead next =>
    rw [inside] at fits
    obtain ⟨cv,spins⟩ := Option.isSome_iff_exists.mp fits.1
    simp only [inside,spins,Option.map_some,Option.some.injEq] at moved
    exact .inl (stored cv _ _ spins moved.symm)
  | testHead =>
    rw [inside] at fits
    obtain ⟨cv,spins⟩ := Option.isSome_iff_exists.mp fits.1
    simp only [inside,spins,Option.map_some,Option.some.injEq] at moved
    have before := locks_of_spins spins
    exact .inl (loads _ before moved.symm)
  | stores w rest =>
    rw [inside] at fits
    obtain ⟨cv,spins⟩ := Option.isSome_iff_exists.mp fits.1
    simp only [inside,spins,Option.map_some,Option.some.injEq] at moved
    exact .inl (stored cv _ _ spins moved.symm)

end
/-- The spin locks of the condition variables are spin locks. -/
theorem reachable_spinLock (f : State Coro Ctx Cv Shared) (reachable : (machine Coro Ctx Cv Shared).Reachable f) :
    (∃ s, (Mutex.machine Coro Ctx Cv Shared).Reachable s ∧ Related f s) ∧
      ∀ k, (SpinLock.machine Coro).Reachable (spinLock k f) := by
  induction reachable with
  | @start f fresh =>
    refine ⟨⟨f.memory,.start fresh.1,fresh_related f fresh⟩,fun k => .start ⟨?_,fun t => ?_⟩⟩
    · obtain ⟨⟨_,_,_,lock,_⟩,_⟩ := fresh
      exact lock k
    · obtain ⟨⟨_,_,_,_,_,_,pc,_⟩,_⟩ := fresh
      simp [spinLock,spinPc,pc t,locks,Pc.spins]
  | @step f g a _ _ moved ih =>
    obtain ⟨⟨s,reached,related⟩,spins⟩ := ih
    obtain ⟨s',shown,related'⟩ := sections_simulate.step f g s a related moved
    refine ⟨⟨s',Machine.run_reachable _ _ s s' reached shown,related'⟩,fun k => ?_⟩
    have turns : spinLock k g = spinLock k f ∨ ∃ b, SpinLock.step (spinLock k f) b = some (spinLock k g) := by
      cases a with
      | step t => exact access_spins related moved k
      | _ =>
        obtain ⟨m,lifted,rfl⟩ := Option.map_eq_some_iff.mp moved
        obtain ⟨_,_,t,p,pc,turn,spins',unlocked,_⟩ := step_turn (fun t => by simp) lifted
        have inside : f.inside t = .outside := by
          have fits := related.fits t
          rw [← related.pc] at fits
          exact fits.outside unlocked spins'
        exact spinLock_turn (g := { f with memory := m }) turn pc rfl inside k
    rcases turns with same | ⟨b,turned⟩
    · exact same ▸ spins k
    · exact .step (spins k) trivial turned

/-- What the spin locks are for: one thread at a time in the sections of a condition
variable, and none of them while its lock is free; no null pointer is dereferenced;
and a list is whole, with its awaiters in their order, whenever its lock is free. -/
structure Protected (f : State Coro Ctx Cv Shared) : Prop where
  exclusive : ∀ k, SpinLock.Exclusive (spinLock k f)
  aborts : ∀ t, f.memory.pc t ≠ .aborted
  whole : ∀ k, f.memory.lock k = false → ∃ l, Chain f.memory.next (f.memory.head k) l ∧ f.memory.tail k = l.getLast? ∧
    l = (f.memory.registrations k).drop (f.memory.taken k)
  placed : (∀ k, f.memory.lock k = false) → NoWaiterLost f.memory

/-- What is known of the condition variables whose critical sections are single steps holds of
those that take their spin locks access by access. -/
theorem spin_locks_protect (f : State Coro Ctx Cv Shared) (reachable : (machine Coro Ctx Cv Shared).Reachable f) : Protected f := by
  obtain ⟨⟨s,reached,related⟩,spins⟩ := reachable_spinLock f reachable
  obtain ⟨h,g,inv⟩ := reachable_invariant s reached
  have same : ∀ k, f.memory.lock k = false → s.head k = f.memory.head k ∧ s.tail k = f.memory.tail k := by
    intro k unlocked
    refine related.free k fun t inside => ?_
    rw [related.lock,inv.spinning.locked t k inside] at unlocked
    contradiction
  have lost := inv.noWaiterLost
  refine ⟨fun k => SpinLock.reachable_exclusive _ (spins k),?_,?_,?_⟩
  · intro t aborted
    rw [related.pc] at aborted
    exact (inv.owned.exchanging t (by rw [aborted]; rfl)).1 aborted
  · intro k unlocked
    have unlocked' : s.lock k = false := by rw [← related.lock]; exact unlocked
    obtain ⟨l,chain,last,_,_,order⟩ := lost.wellFormed k unlocked'
    rw [(same k unlocked).1] at chain
    rw [(same k unlocked).2] at last
    refine ⟨l,?_,last,?_⟩
    · rw [related.rest]
      exact chain
    · rw [related.rest]
      exact order
  · intro free
    have heads : s.head = f.memory.head := funext fun k => (same k (free k)).1
    have tails : s.tail = f.memory.tail := funext fun k => (same k (free k)).2
    have whole : f.memory = s := by
      rw [related.rest,← heads,← tails]
      rfl
    rw [whole]
    exact lost

theorem wait_against_notify_protected : ∃ f,
    (machine Bool Unit Unit Bool).run initial (waitAgainstNotify ++ [.step false,.step false]) = some f ∧
      f.memory.lock () = false ∧ Protected f := by
  have ran : ((machine Bool Unit Unit Bool).run initial (waitAgainstNotify ++ [.step false,.step false])).map
      (fun f => f.memory.lock ()) = some false := by decide
  obtain ⟨f,reached,unlocked⟩ := Option.map_eq_some_iff.mp ran
  have reachable := Machine.run_reachable _ _ initial f (.start initial_fresh) reached
  exact ⟨f,reached,unlocked,spin_locks_protect f reachable⟩

end TinyCoro.CondVar
