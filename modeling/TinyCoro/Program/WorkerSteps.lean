import TinyCoro.Library.Tally
import TinyCoro.Program.WaitCounts

/-! The steps of the workers and of other threads leave the waits of the program alone. -/
namespace TinyCoro.Program
open Library

variable {Coro Ctx ι : Type} [DecidableEq Coro] [DecidableEq Ctx] [DecidableEq ι] {C : ι → Component Coro Ctx}
variable {s : State C} {x : Ctx} {c : Context.State Coro}

omit [DecidableEq Coro] in
private theorem Counted.relabel (counted : Counted s) {place : Coro → Place ι} (same : ∀ i u, place u = .inside i ↔ s.place u = .inside i)
    (count : c.numWaitTask = (s.ctxs x).numWaitTask) (cq : c.cq = (s.ctxs x).cq)
    (busy : ∀ u, s.acting x = some u → Context.isRunning c.pc = true) (leaving : noneFound c.pc = true → c.numWaitTask = 0)
    (view : ∀ i, (c.taskQueue.filter fun u => place u = .inside i) = (s.ctxs x).taskQueue.filter fun u => s.place u = .inside i)
    (queued : ∀ y, ∀ u ∈ (Function.update s.ctxs x c y).taskQueue, place u ≠ .free)
    (once : ∀ y, ((Function.update s.ctxs x c y).taskQueue.filter fun u => place u = .queued).Nodup)
    (apart : ∀ y z u, place u = .queued → u ∈ (Function.update s.ctxs x c y).taskQueue →
      u ∈ (Function.update s.ctxs x c z).taskQueue → y = z) :
    Counted { s.context x c with place := place } := by
  have split : ∀ y, y = x ∧ Function.update s.ctxs x c y = c ∨ y ≠ x ∧ Function.update s.ctxs x c y = s.ctxs y := by
    intro y
    by_cases here : y = x
    · subst here
      exact .inl ⟨rfl,Function.update_self ..⟩
    · exact .inr ⟨here,Function.update_of_ne here ..⟩
  refine ⟨counted.parts,?_,?_,counted.alone,?_,queued,once,apart,?_,?_,?_⟩
  · intro i t
    exact (same i t).trans (counted.inside i t)
  · intro y t acting
    obtain ⟨running,i,inside,awake,home⟩ := counted.acting y t acting
    refine ⟨?_,i,(same i t).mpr inside,awake,home⟩
    dsimp only [State.context]
    rcases split y with ⟨rfl,now⟩ | ⟨_,now⟩
    · rw [now]
      exact busy t acting
    · rwa [now]
  · intro i y
    dsimp only [State.context]
    rcases split y with ⟨rfl,now⟩ | ⟨_,now⟩
    · rw [now,view]
      exact counted.view i y
    · rw [now]
      simp only [same]
      exact counted.view i y
  · intro y
    have waits : State.waiting { s.context x c with place := place } y = s.waiting y := by
      ext t
      exact exists_congr fun i => and_congr_left fun _ => same i t
    have counts : ((s.context x c).ctxs y).numWaitTask = (s.ctxs y).numWaitTask := update_keeps Context.State.numWaitTask count y
    rw [waits,counts]
    exact counted.sized y
  · intro y
    dsimp only [State.context]
    rcases split y with ⟨rfl,now⟩ | ⟨_,now⟩
    · rwa [now]
    · rw [now]
      exact counted.unwaited y
  · intro y
    have same : ((s.context x c).ctxs y).cq = (s.ctxs y).cq := update_keeps Context.State.cq cq y
    exact same.trans (counted.noIo y)

omit [DecidableEq Coro] in
theorem Counted.context (counted : Counted s) (queue : c.taskQueue = (s.ctxs x).taskQueue)
    (count : c.numWaitTask = (s.ctxs x).numWaitTask) (cq : c.cq = (s.ctxs x).cq)
    (busy : ∀ u, s.acting x = some u → Context.isRunning c.pc = true) (leaving : noneFound c.pc = true → c.numWaitTask = 0) :
    Counted (s.context x c) := by
  have queues : ∀ y, (Function.update s.ctxs x c y).taskQueue = (s.ctxs y).taskQueue :=
    update_keeps Context.State.taskQueue queue
  refine counted.relabel (fun _ _ => .rfl) count cq busy leaving ?_ ?_ ?_ ?_
  · intro i
    rw [queue]
  · intro y u member
    rw [queues] at member
    exact counted.queued y u member
  · intro y
    rw [queues]
    exact counted.once y
  · intro y z u place member member'
    rw [queues] at member member'
    exact counted.apart y z u place member member'

section
variable {t : Coro} {p : Place ι}

omit [DecidableEq Ctx] [DecidableEq ι] in
theorem inside_update (before : ∀ i, s.place t ≠ .inside i) (after : ∀ i, p ≠ .inside i) (i : ι) (u : Coro) :
    Function.update s.place t p u = .inside i ↔ s.place u = .inside i := by
  by_cases same : u = t
  · subst same
    rw [Function.update_self]
    exact iff_of_false (after i) (before i)
  · rw [Function.update_of_ne same]

omit [DecidableEq Ctx] in
private theorem filter_update {queue : List Coro} (absent : t ∉ queue) (q : Place ι) :
    (queue.filter fun u => Function.update s.place t p u = q) = queue.filter fun u => s.place u = q := by
  refine List.filter_congr fun u member => ?_
  have other : u ≠ t := fun same => absent (same ▸ member)
  rw [Function.update_of_ne other]

end

theorem Counted.submit (counted : Counted s) {t : Coro} (free : s.place t = .free) (queue : c.taskQueue = (s.ctxs x).taskQueue ++ [t])
    (count : c.numWaitTask = (s.ctxs x).numWaitTask) (cq : c.cq = (s.ctxs x).cq)
    (busy : ∀ u, s.acting x = some u → Context.isRunning c.pc = true) (leaving : noneFound c.pc = true → c.numWaitTask = 0) :
    Counted { s.context x c with place := Function.update s.place t .queued } := by
  have absent : ∀ y, t ∉ (s.ctxs y).taskQueue := fun y member => counted.queued y t member free
  have self : Function.update s.place t .queued t = .queued := Function.update_self ..
  have queues : ∀ y, (Function.update s.ctxs x c y).taskQueue =
      (s.ctxs y).taskQueue ++ if y = x then [t] else [] := by
    intro y
    by_cases here : y = x
    · subst here
      simp [queue]
    · simp [here]
  have members : ∀ y u, u ∈ (Function.update s.ctxs x c y).taskQueue → u ∈ (s.ctxs y).taskQueue ∧ u ≠ t ∨ y = x ∧ u = t := by
    intro y u member
    rw [queues,List.mem_append] at member
    rcases member with old | new
    · exact .inl ⟨old,fun same => absent y (same ▸ old)⟩
    · refine .inr ?_
      split at new
      next here => exact ⟨here,List.mem_singleton.mp new⟩
      next => contradiction
  refine counted.relabel (inside_update (by simp [free]) (by simp)) count cq busy leaving ?_ ?_ ?_ ?_
  · intro i
    rw [queue,List.filter_append,filter_update (absent x)]
    simp
  · intro y u member
    rcases members y u member with ⟨old,other⟩ | ⟨_,rfl⟩
    · rw [Function.update_of_ne other]
      exact counted.queued y u old
    · simp
  · intro y
    rw [queues,List.filter_append,filter_update (absent y)]
    refine List.Nodup.append (counted.once y) ?_ ?_
    · split <;> simp
    · intro u old new
      have here := List.mem_of_mem_filter new
      split at here
      next => exact absent y (List.mem_singleton.mp here ▸ List.mem_of_mem_filter old)
      next => contradiction
  · intro y z u place member member'
    rcases members y u member with ⟨old,other⟩ | ⟨rfl,rfl⟩
    · rcases members z u member' with ⟨old',_⟩ | ⟨_,rfl⟩
      · rw [Function.update_of_ne other] at place
        exact counted.apart y z u place old old'
      · contradiction
    · rcases members z u member' with ⟨_,other⟩ | ⟨same,_⟩
      · contradiction
      · exact same.symm

theorem Counted.start (counted : Counted s) {t : Coro} (place : s.place t = .queued) (queue : (s.ctxs x).taskQueue = t::c.taskQueue)
    (count : c.numWaitTask = (s.ctxs x).numWaitTask) (cq : c.cq = (s.ctxs x).cq)
    (busy : ∀ u, s.acting x = some u → Context.isRunning c.pc = true) (leaving : noneFound c.pc = true → c.numWaitTask = 0) :
    Counted { s.context x c with place := Function.update s.place t .free } := by
  have first : t ∈ (s.ctxs x).taskQueue := by simp [queue]
  have absent : ∀ y, t ∉ (Function.update s.ctxs x c y).taskQueue := by
    intro y member
    by_cases here : y = x
    · subst here
      rw [Function.update_self] at member
      have once := counted.once y
      rw [queue,List.filter_cons_of_pos (by simpa using place)] at once
      exact (List.nodup_cons.mp once).1 (List.mem_filter.mpr ⟨member,by simpa using place⟩)
    · rw [Function.update_of_ne here] at member
      exact here (counted.apart y x t place member first)
  have within : ∀ y, List.Sublist (Function.update s.ctxs x c y).taskQueue (s.ctxs y).taskQueue := by
    intro y
    by_cases here : y = x
    · subst here
      simp [queue]
    · simp [here]
  refine counted.relabel (inside_update (by simp [place]) (by simp)) count cq busy leaving ?_ ?_ ?_ ?_
  · intro i
    have gone := absent x
    rw [Function.update_self] at gone
    rw [filter_update gone,queue,List.filter_cons_of_neg (by simp [place])]
  · intro y u member
    have other : u ≠ t := fun same => absent y (same ▸ member)
    rw [Function.update_of_ne other]
    exact counted.queued y u ((within y).subset member)
  · intro y
    rw [filter_update (absent y)]
    exact ((within y).filter _).nodup (counted.once y)
  · intro y z u place' member member'
    have other : u ≠ t := fun same => absent y (same ▸ member)
    rw [Function.update_of_ne other] at place'
    exact counted.apart y z u place' ((within y).subset member) ((within z).subset member')

theorem Counted.resume (counted : Counted s) {i : ι} (lawful : (C i).Lawful) {t : Coro} {d : (C i).State}
    (place : s.place t = .inside i) (moved : (C i).machine.step (s.comps i) ((C i).exec x) = some d)
    (queue : (s.ctxs x).taskQueue = t::c.taskQueue) (count : c.numWaitTask = (s.ctxs x).numWaitTask)
    (cq : c.cq = (s.ctxs x).cq) (running : Context.isRunning c.pc = true) (found : noneFound c.pc = false) :
    Counted { s.context x c with comps := Function.update s.comps i d, acting := Function.update s.acting x (some t) } := by
  have seen := counted.view i x
  rw [queue,List.filter_cons_of_pos (by simpa using place)] at seen
  obtain ⟨t',rest,pops⟩ := lawful.pops _ _ _ (counted.parts i) moved
  obtain ⟨rfl,rfl⟩ := List.cons.inj (seen.symm.trans pops.front)
  obtain ⟨asleep,home⟩ := lawful.queued _ (counted.parts i) x t (by simp [seen])
  have comp : Function.update s.comps i d i = d := Function.update_self ..
  have others : ∀ j, j ≠ i → Function.update s.comps i d j = s.comps j := fun j here => Function.update_of_ne here ..
  have awake : ∀ y u, s.acting y = some u → u ≠ t := by
    rintro y u acting rfl
    obtain ⟨_,j,inside,awake,_⟩ := counted.acting y u acting
    cases place.symm.trans inside
    simp [asleep] at awake
  have actors : ∀ y u, Function.update s.acting x (some t) y = some u → y = x ∧ u = t ∨ y ≠ x ∧ s.acting y = some u := by
    intro y u acting
    by_cases here : y = x
    · subst here
      rw [Function.update_self] at acting
      exact .inl ⟨rfl,(Option.some.inj acting).symm⟩
    · rw [Function.update_of_ne here] at acting
      exact .inr ⟨here,acting⟩
  have split : ∀ y, y = x ∧ Function.update s.ctxs x c y = c ∨ y ≠ x ∧ Function.update s.ctxs x c y = s.ctxs y := by
    intro y
    by_cases here : y = x
    · subst here
      exact .inl ⟨rfl,Function.update_self ..⟩
    · exact .inr ⟨here,Function.update_of_ne here ..⟩
  have within : ∀ y, List.Sublist (Function.update s.ctxs x c y).taskQueue (s.ctxs y).taskQueue := by
    intro y
    rcases split y with ⟨rfl,now⟩ | ⟨_,now⟩
    · simp [queue]
    · simp [now]
  refine ⟨?_,?_,?_,?_,?_,?_,?_,?_,?_,?_,?_⟩
  · intro j
    dsimp only
    by_cases here : j = i
    · subst here
      rw [comp]
      exact .step (counted.parts j) trivial moved
    · rw [others j here]
      exact counted.parts j
  · intro j u
    by_cases here : j = i
    · subst here
      dsimp only [State.context]
      rw [comp]
      by_cases mine : u = t
      · subst mine
        exact iff_of_true place pops.resumed.1
      · rw [pops.idle u mine]
        exact counted.inside j u
    · dsimp only [State.context]
      rw [others j here]
      exact counted.inside j u
  · intro y u acting
    dsimp only [State.context]
    rcases actors y u acting with ⟨rfl,rfl⟩ | ⟨away,earlier⟩
    · refine ⟨by rwa [Function.update_self],i,place,?_⟩
      rw [comp,pops.home u]
      exact ⟨pops.resumed.2,.inr home⟩
    · obtain ⟨busy,j,inside,old,bound⟩ := counted.acting y u earlier
      rw [Function.update_of_ne away]
      refine ⟨busy,j,inside,?_⟩
      by_cases here : j = i
      · subst here
        rw [comp,pops.home u,pops.suspended u (awake y u earlier)]
        exact ⟨old,bound⟩
      · rw [others j here]
        exact ⟨old,bound⟩
  · intro y z u acting acting'
    rcases actors y u acting with ⟨rfl,rfl⟩ | ⟨_,earlier⟩
    · rcases actors z u acting' with ⟨rfl,_⟩ | ⟨_,earlier'⟩
      · rfl
      · exact absurd rfl (awake z u earlier')
    · rcases actors z u acting' with ⟨_,rfl⟩ | ⟨_,earlier'⟩
      · exact absurd rfl (awake y u earlier)
      · exact counted.alone y z u earlier earlier'
  · intro j y
    dsimp only [State.context]
    by_cases here : j = i
    · subst here
      rw [comp,pops.queue]
      rcases split y with ⟨rfl,now⟩ | ⟨away,now⟩
      · rw [now,Function.update_self]
        rfl
      · rw [now,Function.update_of_ne away]
        exact counted.view j y
    · rw [others j here,counted.view j y]
      rcases split y with ⟨rfl,now⟩ | ⟨_,now⟩
      · have elsewhere : ¬ i = j := fun same => here same.symm
        rw [now,queue,List.filter_cons_of_neg (by simpa [place] using elsewhere)]
        rfl
      · rw [now]
        rfl
  · intro y u member
    exact counted.queued y u ((within y).subset member)
  · intro y
    exact ((within y).filter _).nodup (counted.once y)
  · intro y z u placed member member'
    exact counted.apart y z u placed ((within y).subset member) ((within z).subset member')
  · intro y
    have waits : State.waiting { s.context x c with comps := Function.update s.comps i d
                                                    acting := Function.update s.acting x (some t) } y = s.waiting y := by
      ext u
      refine exists_congr fun j => and_congr_right fun _ => ?_
      by_cases here : j = i
      · subst here
        dsimp only [State.context]
        rw [comp]
        exact pops.waiting u y
      · dsimp only [State.context]
        rw [others j here]
    have counts : ((s.context x c).ctxs y).numWaitTask = (s.ctxs y).numWaitTask := update_keeps Context.State.numWaitTask count y
    rw [waits]
    dsimp only
    rw [counts]
    exact counted.sized y
  · intro y empty
    dsimp only [State.context] at empty ⊢
    rcases split y with ⟨rfl,now⟩ | ⟨_,now⟩
    · rw [now,found] at empty
      contradiction
    · rw [now] at empty ⊢
      exact counted.unwaited y empty
  · intro y
    have same : ((s.context x c).ctxs y).cq = (s.ctxs y).cq := update_keeps Context.State.cq cq y
    exact same.trans (counted.noIo y)

end TinyCoro.Program
