import TinyCoro.Program.Interleaving

/-! `m_num_wait_task` of every context counts the waits registered there, over any
family of lawful components. -/
namespace TinyCoro.Program
open Library

variable {Coro Ctx ι : Type} [DecidableEq Coro] [DecidableEq Ctx] [DecidableEq ι] {C : ι → Component Coro Ctx}

/-- The worker has found no wait since it last executed a coroutine. -/
def noneFound : Context.Pc Coro → Bool
  | .ready | .returned => true
  | _ => false

structure Counted (s : State C) : Prop where
  parts : ∀ i, (C i).machine.Reachable (s.comps i)
  inside : ∀ i t, s.place t = .inside i ↔ (C i).idle (s.comps i) t = false
  acting : ∀ x t, s.acting x = some t → Context.isRunning (s.ctxs x).pc = true ∧ ∃ i, s.place t = .inside i ∧
    (C i).suspended (s.comps i) t = false ∧ ((C i).home (s.comps i) t = none ∨ (C i).home (s.comps i) t = some x)
  alone : ∀ x y t, s.acting x = some t → s.acting y = some t → x = y
  view : ∀ i x, ((C i).contexts (s.comps i)).taskQueue x = (s.ctxs x).taskQueue.filter fun t => s.place t = .inside i
  queued : ∀ x, ∀ t ∈ (s.ctxs x).taskQueue, s.place t ≠ .free
  once : ∀ x, ((s.ctxs x).taskQueue.filter fun t => s.place t = .queued).Nodup
  apart : ∀ x y t, s.place t = .queued → t ∈ (s.ctxs x).taskQueue → t ∈ (s.ctxs y).taskQueue → x = y
  sized : ∀ x, Sized (s.waiting x) (s.ctxs x).numWaitTask
  unwaited : ∀ x, noneFound (s.ctxs x).pc = true → (s.ctxs x).numWaitTask = 0
  noIo : ∀ x, (s.ctxs x).cq = []

section
variable (c : Context.State Coro) (before after : Contexts Ctx Coro) (x : Ctx)

omit [DecidableEq Coro] [DecidableEq Ctx]

@[simp] theorem follow_pc : (follow c before after x).pc = c.pc := rfl

@[simp] theorem follow_cq : (follow c before after x).cq = c.cq := rfl

@[simp] theorem follow_numWaitTask :
    (follow c before after x).numWaitTask = c.numWaitTask + (after.numWaitTask x - before.numWaitTask x) := rfl

private theorem follow_taskQueue {more : List Coro} (pushed : after.taskQueue x = before.taskQueue x ++ more) :
    (follow c before after x).taskQueue = c.taskQueue ++ more := by
  simp [follow,pushed]

end

/-- The coroutine `t`, executed by the worker of `x`, takes a step inside the component `i`. -/
structure Turn (s : State C) (x : Ctx) (i : ι) (t : Coro) (c : (C i).State) (site : Option Ctx) : Prop where
  running : Context.isRunning (s.ctxs x).pc = true
  turn : s.acting x = none ∧ s.place t = .free ∨ s.acting x = some t ∧ s.place t = .inside i
  local' : site = none ∨ site = some x
  reachable : (C i).machine.Reachable c
  acts : (C i).Acts (s.comps i) c t site

section
variable {s : State C} {x : Ctx} {i : ι} {t : Coro} {c : (C i).State} {site : Option Ctx}

omit [DecidableEq Coro] in
theorem Turn.unqueued (turn : Turn s x i t c site) (lawful : (C i).Lawful) (counted : Counted s) (y : Ctx) :
    t ∉ (s.ctxs y).taskQueue := by
  intro member
  rcases turn.turn with ⟨_,free⟩ | ⟨acting,inside⟩
  · exact counted.queued y t member free
  · have seen : t ∈ ((C i).contexts (s.comps i)).taskQueue y := by
      rw [counted.view i y]
      simp [member,inside]
    have asleep := (lawful.queued _ (counted.parts i) y t seen).1
    obtain ⟨_,j,inside',awake,_⟩ := counted.acting x t acting
    cases inside.symm.trans inside'
    simp [asleep] at awake

omit [DecidableEq Coro] [DecidableEq ι] in
theorem Turn.elsewhere (turn : Turn s x i t c site) {j : ι} (inside : s.place t = .inside j) : j = i := by
  rcases turn.turn with ⟨_,free⟩ | ⟨_,here⟩
  · simp [free] at inside
  · simpa [here,eq_comm] using inside

omit [DecidableEq Coro] in
theorem Turn.only (turn : Turn s x i t c site) (counted : Counted s) {y : Ctx} (acting : s.acting y = some t) : y = x := by
  rcases turn.turn with ⟨_,free⟩ | ⟨here,_⟩
  · obtain ⟨_,j,inside,_⟩ := counted.acting y t acting
    simp [free] at inside
  · exact counted.alone y x t acting here

omit [DecidableEq Coro] in
private theorem Turn.home_before (turn : Turn s x i t c site) (lawful : (C i).Lawful) (counted : Counted s) :
    (C i).home (s.comps i) t = none ∨ (C i).home (s.comps i) t = some x := by
  rcases turn.turn with ⟨_,free⟩ | ⟨acting,inside⟩
  · refine .inl (lawful.bare _ t ?_)
    by_contra busy
    have inside := (counted.inside i t).mpr (by simpa using busy)
    simp [free] at inside
  · obtain ⟨_,j,inside',_,home⟩ := counted.acting x t acting
    cases inside.symm.trans inside'
    exact home

omit [DecidableEq Coro] in
theorem Turn.home (turn : Turn s x i t c site) (lawful : (C i).Lawful) (counted : Counted s) :
    (C i).home c t = none ∨ (C i).home c t = some x := by
  rcases turn.acts.place with same | none | new
  · rw [same]
    exact turn.home_before lawful counted
  · exact .inl none
  · rw [new]
    exact turn.local'

omit [DecidableEq Coro] [DecidableEq ι] in
theorem Turn.pushed (turn : Turn s x i t c site) (lawful : (C i).Lawful) {y : Ctx} {more : List Coro}
    (queue : ((C i).contexts c).taskQueue y = ((C i).contexts (s.comps i)).taskQueue y ++ more) {u : Coro} (member : u ∈ more) :
    (C i).suspended c u = true ∧ (C i).idle c u = false := by
  obtain ⟨asleep,home⟩ := lawful.queued c turn.reachable y u (by rw [queue]; simp [member])
  refine ⟨asleep,?_⟩
  by_contra idle
  rw [lawful.bare c u (by simpa using idle)] at home
  contradiction

section
variable (s x i t c)

theorem settle_pc (y : Ctx) : ((s.settle x i t c).ctxs y).pc =
    if y = x ∧ (C i).suspended c t = true then suspends (s.ctxs y).pc else (s.ctxs y).pc := by
  simp only [State.settle]
  split <;> rfl

private theorem settle_numWaitTask (y : Ctx) : ((s.settle x i t c).ctxs y).numWaitTask =
    (s.ctxs y).numWaitTask + (((C i).contexts c).numWaitTask y - ((C i).contexts (s.comps i)).numWaitTask y) := by
  simp only [State.settle]
  split <;> rfl

private theorem settle_cq (y : Ctx) : ((s.settle x i t c).ctxs y).cq = (s.ctxs y).cq := by
  simp only [State.settle]
  split <;> rfl

theorem settle_other {u : Coro} (other : u ≠ t) : (s.settle x i t c).place u = s.place u := Function.update_of_ne other ..

end

theorem settle_taskQueue {y : Ctx} {more : List Coro}
    (queue : ((C i).contexts c).taskQueue y = ((C i).contexts (s.comps i)).taskQueue y ++ more) :
    ((s.settle x i t c).ctxs y).taskQueue = (s.ctxs y).taskQueue ++ more := by
  simp only [State.settle]
  split <;> exact follow_taskQueue _ _ _ _ queue

theorem Turn.inside (turn : Turn s x i t c site) (counted : Counted s) (j : ι) (u : Coro) :
    (s.settle x i t c).place u = .inside j ↔ (C j).idle ((s.settle x i t c).comps j) u = false := by
  by_cases mine : u = t
  · subst mine
    have place : (s.settle x i u c).place u = if (C i).idle c u then .free else .inside i := Function.update_self ..
    by_cases here : j = i
    · subst here
      have comp : (s.settle x j u c).comps j = c := Function.update_self ..
      rw [place,comp]
      by_cases idle : (C j).idle c u = true <;> simp [idle]
    · have comp : (s.settle x i u c).comps j = s.comps j := Function.update_of_ne here ..
      have outside : s.place u ≠ .inside j := fun inside => here (turn.elsewhere inside)
      rw [comp,← counted.inside j u,place]
      refine iff_of_false ?_ outside
      by_cases idle : (C i).idle c u = true <;> simp [idle,Ne.symm here]
  · rw [settle_other s x i t c mine,counted.inside j u]
    by_cases here : j = i
    · subst here
      have comp : (s.settle x j t c).comps j = c := Function.update_self ..
      rw [comp,turn.acts.idle u mine]
    · have comp : (s.settle x i t c).comps j = s.comps j := Function.update_of_ne here ..
      rw [comp]

theorem Turn.pushed_place (turn : Turn s x i t c site) (lawful : (C i).Lawful) (counted : Counted s) {y : Ctx} {more : List Coro}
    (queue : ((C i).contexts c).taskQueue y = ((C i).contexts (s.comps i)).taskQueue y ++ more) {u : Coro} (member : u ∈ more) :
    (s.settle x i t c).place u = .inside i := by
  have comp : (s.settle x i t c).comps i = c := Function.update_self ..
  rw [turn.inside counted i u,comp]
  exact (turn.pushed lawful queue member).2

theorem Turn.filter (turn : Turn s x i t c site) (lawful : (C i).Lawful) (counted : Counted s) (y : Ctx) (p : Place ι) :
    ((s.ctxs y).taskQueue.filter fun u => (s.settle x i t c).place u = p) = (s.ctxs y).taskQueue.filter fun u => s.place u = p := by
  refine List.filter_congr fun u member => ?_
  have other : u ≠ t := fun same => turn.unqueued lawful counted y (same ▸ member)
  rw [settle_other s x i t c other]

theorem Turn.view (turn : Turn s x i t c site) (lawful : (C i).Lawful) (counted : Counted s) (j : ι) (y : Ctx) :
    ((C j).contexts ((s.settle x i t c).comps j)).taskQueue y =
      ((s.settle x i t c).ctxs y).taskQueue.filter fun u => (s.settle x i t c).place u = .inside j := by
  obtain ⟨more,queue⟩ := turn.acts.queue y
  rw [settle_taskQueue queue,List.filter_append,turn.filter lawful counted,← counted.view j y]
  by_cases here : j = i
  · subst here
    have comp : (s.settle x j t c).comps j = c := Function.update_self ..
    have all : (more.filter fun u => (s.settle x j t c).place u = .inside j) = more :=
      List.filter_eq_self.mpr fun u member => by simpa using turn.pushed_place lawful counted queue member
    rw [comp,queue,all]
  · have comp : (s.settle x i t c).comps j = s.comps j := Function.update_of_ne here ..
    have none : (more.filter fun u => (s.settle x i t c).place u = .inside j) = [] :=
      List.filter_eq_nil_iff.mpr fun u member => by simp [turn.pushed_place lawful counted queue member,Ne.symm here]
    rw [comp,none,List.append_nil]

/-- The counter of every context follows the waits registered there. -/
theorem Turn.sized (turn : Turn s x i t c site) (lawful : (C i).Lawful) (counted : Counted s) (y : Ctx) :
    Sized ((s.settle x i t c).waiting y) ((s.settle x i t c).ctxs y).numWaitTask := by
  have busy : ∀ (d : (C i).State), (C i).machine.Reachable d → t ∈ (C i).waiting d y → (C i).idle d t = false := by
    intro d reachable waits
    by_contra idle
    have home := lawful.home d reachable y t waits
    rw [lawful.bare d t (by simpa using idle)] at home
    contradiction
  refine (counted.sized y).moves t ?_ ((turn.acts.moves y).shift ?_ ?_ (settle_numWaitTask s x i t c y))
  · intro u other
    refine exists_congr fun j => ?_
    rw [settle_other s x i t c other]
    refine and_congr_right fun _ => ?_
    by_cases here : j = i
    · subst here
      have comp : (s.settle x j t c).comps j = c := Function.update_self ..
      rw [comp,turn.acts.waiting other y]
    · have comp : (s.settle x i t c).comps j = s.comps j := Function.update_of_ne here ..
      rw [comp]
  · constructor
    · rintro ⟨j,inside,waits⟩
      obtain rfl := turn.elsewhere inside
      exact waits
    · intro waits
      exact ⟨i,(counted.inside i t).mpr (busy _ (counted.parts i) waits),waits⟩
  · have comp : (s.settle x i t c).comps i = c := Function.update_self ..
    constructor
    · rintro ⟨j,inside,waits⟩
      have here : j = i := by
        by_contra other
        have place : (s.settle x i t c).place t = if (C i).idle c t then .free else .inside i := Function.update_self ..
        rw [place] at inside
        split at inside
        next => contradiction
        next => exact other (by simpa [eq_comm] using inside)
      subst here
      rwa [comp] at waits
    · intro waits
      refine ⟨i,(turn.inside counted i t).mpr ?_,?_⟩
      · rw [comp]
        exact busy c turn.reachable waits
      · rwa [comp]

private theorem Turn.settle_acting (turn : Turn s x i t c site) (counted : Counted s) {y : Ctx} {u : Coro}
    (acting : (s.settle x i t c).acting y = some u) :
    y = x ∧ u = t ∧ (C i).idle c t = false ∧ (C i).suspended c t = false ∨ y ≠ x ∧ u ≠ t ∧ s.acting y = some u := by
  by_cases here : y = x
  · subst here
    have now : (s.settle y i t c).acting y = if (C i).idle c t ∨ (C i).suspended c t then none else some t :=
      Function.update_self ..
    rw [now] at acting
    split at acting
    next => contradiction
    next awake =>
      obtain rfl := Option.some.inj acting
      exact .inl ⟨rfl,rfl,by simpa using fun idle => awake (.inl idle),by simpa using fun asleep => awake (.inr asleep)⟩
  · have same : (s.settle x i t c).acting y = s.acting y := Function.update_of_ne here ..
    rw [same] at acting
    refine .inr ⟨here,?_,acting⟩
    rintro rfl
    exact here (turn.only counted acting)

theorem Turn.acting (turn : Turn s x i t c site) (lawful : (C i).Lawful) (counted : Counted s) (y : Ctx) (u : Coro)
    (acting : (s.settle x i t c).acting y = some u) :
    Context.isRunning ((s.settle x i t c).ctxs y).pc = true ∧ ∃ j, (s.settle x i t c).place u = .inside j ∧
      (C j).suspended ((s.settle x i t c).comps j) u = false ∧
      ((C j).home ((s.settle x i t c).comps j) u = none ∨ (C j).home ((s.settle x i t c).comps j) u = some y) := by
  have comp : (s.settle x i t c).comps i = c := Function.update_self ..
  rw [settle_pc]
  rcases turn.settle_acting counted acting with ⟨rfl,rfl,busy,awake⟩ | ⟨away,other,acting⟩
  · have here := (turn.inside counted i u).mpr (by rwa [comp])
    rw [if_neg (by simp [awake])]
    refine ⟨turn.running,i,here,?_⟩
    rw [comp]
    exact ⟨awake,turn.home lawful counted⟩
  · obtain ⟨running,j,inside,awake,home⟩ := counted.acting y u acting
    rw [if_neg fun now => away now.1,settle_other s x i t c other]
    refine ⟨running,j,inside,?_⟩
    by_cases here : j = i
    · subst here
      rw [comp,turn.acts.suspended u other,turn.acts.home u other]
      exact ⟨awake,home⟩
    · have comp : (s.settle x i t c).comps j = s.comps j := Function.update_of_ne here ..
      rw [comp]
      exact ⟨awake,home⟩

theorem Turn.alone (turn : Turn s x i t c site) (counted : Counted s) (y z : Ctx) (u : Coro)
    (acting : (s.settle x i t c).acting y = some u) (acting' : (s.settle x i t c).acting z = some u) : y = z := by
  rcases turn.settle_acting counted acting with ⟨rfl,rfl,_⟩ | ⟨_,other,acting⟩
  · rcases turn.settle_acting counted acting' with ⟨rfl,_⟩ | ⟨_,other,_⟩
    · rfl
    · contradiction
  · rcases turn.settle_acting counted acting' with ⟨_,same,_⟩ | ⟨_,_,acting'⟩
    · contradiction
    · exact counted.alone y z u acting acting'

theorem Turn.member (turn : Turn s x i t c site) (lawful : (C i).Lawful) (counted : Counted s) {y : Ctx} {u : Coro}
    (member : u ∈ ((s.settle x i t c).ctxs y).taskQueue) :
    u ≠ t ∧ u ∈ (s.ctxs y).taskQueue ∨ (s.settle x i t c).place u = .inside i := by
  obtain ⟨more,queue⟩ := turn.acts.queue y
  rw [settle_taskQueue queue] at member
  rcases List.mem_append.mp member with old | new
  · refine .inl ⟨?_,old⟩
    rintro rfl
    exact turn.unqueued lawful counted y old
  · exact .inr (turn.pushed_place lawful counted queue new)

theorem Turn.queued (turn : Turn s x i t c site) (lawful : (C i).Lawful) (counted : Counted s) (y : Ctx) (u : Coro)
    (member : u ∈ ((s.settle x i t c).ctxs y).taskQueue) : (s.settle x i t c).place u ≠ .free := by
  rcases turn.member lawful counted member with ⟨other,old⟩ | inside
  · rw [settle_other s x i t c other]
    exact counted.queued y u old
  · simp [inside]

theorem Turn.once (turn : Turn s x i t c site) (lawful : (C i).Lawful) (counted : Counted s) (y : Ctx) :
    (((s.settle x i t c).ctxs y).taskQueue.filter fun u => (s.settle x i t c).place u = .queued).Nodup := by
  obtain ⟨more,queue⟩ := turn.acts.queue y
  have none : (more.filter fun u => (s.settle x i t c).place u = .queued) = [] :=
    List.filter_eq_nil_iff.mpr fun u member => by simp [turn.pushed_place lawful counted queue member]
  rw [settle_taskQueue queue,List.filter_append,turn.filter lawful counted,none,List.append_nil]
  exact counted.once y

theorem Turn.apart (turn : Turn s x i t c site) (lawful : (C i).Lawful) (counted : Counted s) (y z : Ctx) (u : Coro)
    (queued : (s.settle x i t c).place u = .queued) (member : u ∈ ((s.settle x i t c).ctxs y).taskQueue)
    (member' : u ∈ ((s.settle x i t c).ctxs z).taskQueue) : y = z := by
  rcases turn.member lawful counted member with ⟨other,old⟩ | inside
  · rcases turn.member lawful counted member' with ⟨_,old'⟩ | inside
    · rw [settle_other s x i t c other] at queued
      exact counted.apart y z u queued old old'
    · simp [queued] at inside
  · simp [queued] at inside

theorem Turn.unwaited (turn : Turn s x i t c site) (lawful : (C i).Lawful) (counted : Counted s) (y : Ctx)
    (leaving : noneFound ((s.settle x i t c).ctxs y).pc = true) : ((s.settle x i t c).ctxs y).numWaitTask = 0 := by
  rw [settle_pc] at leaving
  have away : y ≠ x := by
    rintro rfl
    have running := turn.running
    cases pc : (s.ctxs y).pc with
    | running left handle =>
      rw [pc] at leaving
      split at leaving <;> contradiction
    | _ => simp [pc,Context.isRunning] at running
  rw [if_neg fun now => away now.1] at leaving
  rw [settle_numWaitTask,counted.unwaited y leaving]
  have elsewhere : some y ≠ some x := fun same => away (Option.some.inj same)
  cases turn.acts.moves y with
  | stays _ counts => omega
  | joins _ member _ =>
    have home := lawful.home c turn.reachable y t member
    rcases turn.home lawful counted with gone | here
    · simp [home] at gone
    · exact absurd (home.symm.trans here) elsewhere
  | leaves member _ _ =>
    have home := lawful.home _ (counted.parts i) y t member
    rcases turn.home_before lawful counted with gone | here
    · simp [home] at gone
    · exact absurd (home.symm.trans here) elsewhere

theorem Turn.counted (turn : Turn s x i t c site) (lawful : (C i).Lawful) (counted : Counted s) :
    Counted (s.settle x i t c) where
  parts j := by
    by_cases here : j = i
    · subst here
      have comp : (s.settle x j t c).comps j = c := Function.update_self ..
      rw [comp]
      exact turn.reachable
    · have comp : (s.settle x i t c).comps j = s.comps j := Function.update_of_ne here ..
      rw [comp]
      exact counted.parts j
  inside := turn.inside counted
  acting := turn.acting lawful counted
  alone := turn.alone counted
  view := turn.view lawful counted
  queued := turn.queued lawful counted
  once := turn.once lawful counted
  apart := turn.apart lawful counted
  sized := turn.sized lawful counted
  unwaited := turn.unwaited lawful counted
  noIo y := by
    rw [settle_cq]
    exact counted.noIo y

end

end TinyCoro.Program
