import TinyCoro.Library.Chain
import TinyCoro.Library.Settling

/-! Waiters in intrusive lists. A party that has to wait links its waiter in front of the
list and sleeps. Who wakes the sleepers takes the whole list and pushes their handles to
queues, one by one, and from the front of its queue a sleeper goes on. Each sleeper is in
one place, whatever the order of the steps and however many lists have been taken. -/
namespace TinyCoro.Library.WaitList

/-- Where a party is: outside of all calls, in a call that may take the list, in a wait with
its waiter `self`, or waking the waiters of a list it has taken. -/
inductive Stage (Addr : Type*)
  | outside
  | calling
  | inside (self : Addr)
  | linking (self : Addr) (next : Option Addr)
  | asleep (self : Addr)
  | drain (head : Option Addr)
  | wake (cur : Addr) (next : Option Addr)

namespace Stage
variable {Addr : Type*}

/-- The waiter that lives in the frame of a party. -/
def waiter : Stage Addr → Option Addr
  | .inside a | .linking a _ | .asleep a => some a
  | _ => none

/-- What is left of the list that a party has taken. -/
def detached : Stage Addr → Option Addr
  | .drain head => head
  | .wake cur _ => some cur
  | _ => none

end Stage

/-- The fields of the waiters by their addresses, from which `head` starts the list.
`suspensions` and `submissions` are histories. -/
structure State (Party Place Addr : Type*) where
  head : Option Addr
  next : Addr → Option Addr
  live : Addr → Bool
  party : Addr → Party
  place : Addr → Place
  stage : Party → Stage Addr
  queue : Place → List Party
  suspensions : Party → Nat
  submissions : Party → Nat

variable {Party Place Addr : Type*}

/-- The party sleeps and its handle is in no queue yet. -/
def Waits (w : State Party Place Addr) (t : Party) : Prop := (∃ a, w.stage t = .asleep a) ∧ ∀ x, t ∉ w.queue x

/-- The sleepers, of which the waiters in `away` are in lists and the others in queues. -/
structure Parked (w : State Party Place Addr) (away : Addr → Prop) : Prop where
  owner : ∀ t a, w.stage t = .asleep a → w.party a = t
  suspended : ∀ a, away a → w.stage (w.party a) = .asleep a
  unqueued : ∀ a x, away a → w.party a ∉ w.queue x
  placed : ∀ t a, w.stage t = .asleep a → away a ∨ t ∈ w.queue (w.place a)
  queued : ∀ x t, t ∈ w.queue x → ∃ a, w.stage t = .asleep a ∧ w.place a = x
  queueNodup : ∀ x, (w.queue x).Nodup
  counted : ∀ t, (Waits w t → w.suspensions t = w.submissions t + 1) ∧ (¬ Waits w t → w.suspensions t = w.submissions t)

/-- What the lists ask of a party at `p`, which holds the list `held`. -/
structure Stands (w : State Party Place Addr) (held : List Addr) (t : Party) (p : Stage Addr) : Prop where
  detached : Chain w.next p.detached held
  owner : ∀ a, p.waiter = some a → w.party a = t ∧ w.live a = true
  saved : ∀ a n, p = .wake a n → w.next a = n
  stored : ∀ a o, p = .linking a o → w.next a = o

/-- `linked` is the list from `head`, and `held` are those that the parties have taken. -/
structure Lists (w : State Party Place Addr) (linked : List Addr) (held : Party → List Addr) : Prop where
  chain : Chain w.next w.head linked
  stands : ∀ t, Stands w (held t) t (w.stage t)
  parked : Parked w fun a => a ∈ linked ∨ ∃ u, a ∈ held u
  apart : ∀ t a, a ∈ held t → a ∉ linked
  heldOnce : ∀ t u a, a ∈ held t → a ∈ held u → u = t

def Linked (w : State Party Place Addr) : Prop := ∃ linked held, Lists w linked held

/-- Nobody has called anything. -/
structure Fresh (w : State Party Place Addr) : Prop where
  head : w.head = none
  stage : ∀ t, w.stage t = .outside
  queue : ∀ x, w.queue x = []
  suspensions : ∀ t, w.suspensions t = 0
  submissions : ∀ t, w.submissions t = 0

theorem Fresh.linked {w : State Party Place Addr} (fresh : Fresh w) : Linked w := by
  refine ⟨[],fun _ => [],?_⟩
  constructor
  case chain => exact fresh.head
  case stands =>
    intro t
    rw [fresh.stage t]
    exact ⟨rfl,nofun,nofun,nofun⟩
  case parked =>
    have idle : ∀ t, ¬ Waits w t := fun t ⟨⟨a,asleep⟩,_⟩ => by simp [fresh.stage t] at asleep
    have settled : ∀ t, w.suspensions t = w.submissions t := fun t => (fresh.suspensions t).trans (fresh.submissions t).symm
    constructor
    case counted => exact fun t => ⟨fun waits => absurd waits (idle t),fun _ => settled t⟩
    all_goals simp [fresh.stage,fresh.queue]
  all_goals simp

section
variable {w w' : State Party Place Addr} {away away' : Addr → Prop}

/-- Nobody falls asleep or wakes up; other waiters may come and go. -/
theorem Parked.quiet (h : Parked w away) (asleep : ∀ t a, w'.stage t = .asleep a ↔ w.stage t = .asleep a)
    (listed : ∀ a, away' a ↔ away a) (kept : ∀ t a, w.stage t = .asleep a → w'.party a = w.party a ∧ w'.place a = w.place a)
    (queue : w'.queue = w.queue) (suspensions : w'.suspensions = w.suspensions) (submissions : w'.submissions = w.submissions) :
    Parked w' away' := by
  obtain rfl : away' = away := funext fun a => propext (listed a)
  have keeps : ∀ a, away' a → w'.party a = w.party a := fun a here => (kept _ a (h.suspended a here)).1
  constructor
  case owner =>
    intro t a here
    have before := (asleep t a).mp here
    rw [(kept t a before).1]
    exact h.owner t a before
  case suspended =>
    intro a here
    rw [keeps a here,asleep]
    exact h.suspended a here
  case unqueued =>
    intro a x here
    rw [keeps a here,queue]
    exact h.unqueued a x here
  case placed =>
    intro t a here
    have before := (asleep t a).mp here
    rw [(kept t a before).2,queue]
    exact h.placed t a before
  case queued =>
    intro x t member
    rw [queue] at member
    obtain ⟨a,here,same⟩ := h.queued x t member
    exact ⟨a,(asleep t a).mpr here,(kept t a here).2.trans same⟩
  case queueNodup =>
    rw [queue]
    exact h.queueNodup
  case counted =>
    intro t
    have same : Waits w' t ↔ Waits w t := by simp only [Waits,asleep,queue]
    rw [same,suspensions,submissions]
    exact h.counted t

theorem Parked.unique (h : Parked w away) {t : Party} {x y : Place} (here : t ∈ w.queue x) (there : t ∈ w.queue y) : y = x := by
  obtain ⟨a,asleep,rfl⟩ := h.queued x t here
  obtain ⟨b,asleep',rfl⟩ := h.queued y t there
  rw [asleep] at asleep'
  cases asleep'
  rfl

end

variable [DecidableEq Party]

def State.goto (w : State Party Place Addr) (t : Party) (q : Stage Addr) : State Party Place Addr :=
  { w with stage := Function.update w.stage t q }

section
variable {w : State Party Place Addr} {away away' : Addr → Prop} {t : Party}

theorem State.goto_self (w : State Party Place Addr) (t : Party) {q : Stage Addr} (here : w.stage t = q) : w.goto t q = w := by
  subst here
  simp only [State.goto,Function.update_eq_self]

theorem asleep_update {q : Stage Addr} (awake : ∀ a, w.stage t ≠ .asleep a) (awake' : ∀ a, q ≠ .asleep a) (u : Party) (a : Addr) :
    Function.update w.stage t q u = .asleep a ↔ w.stage u = .asleep a := by
  by_cases same : u = t
  · subst same
    rw [Function.update_self]
    exact iff_of_false (awake' a) (awake a)
  · rw [Function.update_of_ne same]

theorem Parked.park (h : Parked w away) {a : Addr} {head : Option Addr} (awake : ∀ b, w.stage t ≠ .asleep b)
    (owner : w.party a = t) (listed : ∀ b, away' b ↔ b = a ∨ away b) :
    Parked { w.goto t (.asleep a) with head := head, suspensions := Function.update w.suspensions t (w.suspensions t + 1) } away' := by
  have absent : ∀ x, t ∉ w.queue x := by
    intro x member
    obtain ⟨b,here,_⟩ := h.queued x t member
    exact awake b here
  have sleeps : ∀ u b, Function.update w.stage t (.asleep a) u = .asleep b ↔ w.stage u = .asleep b ∨ u = t ∧ b = a := by
    intro u b
    by_cases same : u = t
    · subst same
      simp [awake b,eq_comm]
    · simp [same]
  constructor
  case owner =>
    intro u b here
    rcases (sleeps u b).mp here with old | ⟨rfl,rfl⟩
    · exact h.owner u b old
    · exact owner
  case suspended =>
    intro b here
    rcases (listed b).mp here with rfl | old
    · exact (sleeps _ b).mpr (.inr ⟨owner,rfl⟩)
    · exact (sleeps _ b).mpr (.inl (h.suspended b old))
  case unqueued =>
    intro b x here
    rcases (listed b).mp here with rfl | old
    · dsimp only [State.goto]
      rw [owner]
      exact absent x
    · exact h.unqueued b x old
  case placed =>
    intro u b here
    rcases (sleeps u b).mp here with old | ⟨_,rfl⟩
    · exact (h.placed u b old).imp_left fun old => (listed b).mpr (.inr old)
    · exact .inl ((listed b).mpr (.inl rfl))
  case queued =>
    intro x u member
    obtain ⟨b,here,same⟩ := h.queued x u member
    exact ⟨b,(sleeps u b).mpr (.inl here),same⟩
  case queueNodup => exact h.queueNodup
  case counted =>
    intro u
    by_cases same : u = t
    · subst same
      have settled := (h.counted u).2 fun waits => waits.1.elim awake
      refine ⟨fun _ => ?_,fun none => absurd ⟨⟨a,Function.update_self ..⟩,absent⟩ none⟩
      dsimp only [State.goto]
      rw [Function.update_self,settled]
    · have stays : (∃ b, Function.update w.stage t (.asleep a) u = .asleep b) ↔ ∃ b, w.stage u = .asleep b := by
        simp only [sleeps,same,false_and,or_false]
      simpa only [Waits,State.goto,Function.update_of_ne same,stays] using h.counted u

end
variable [DecidableEq Place]
section
variable {w : State Party Place Addr} {away away' : Addr → Prop} {t : Party}

omit [DecidableEq Party] in
theorem mem_push {queue : Place → List Party} {x y : Place} {u : Party} :
    t ∈ Function.update queue x (queue x ++ [u]) y ↔ t ∈ queue y ∨ y = x ∧ t = u := by
  by_cases same : y = x
  · subst same
    simp
  · simp [same]

theorem Parked.submit (h : Parked w away) {a : Addr} {q : Stage Addr} (awake : ∀ b, w.stage t ≠ .asleep b)
    (awake' : ∀ b, q ≠ .asleep b) (front : away a) (listed : ∀ b, away' b ↔ away b ∧ b ≠ a) :
    Parked { w.goto t q with
      queue := Function.update w.queue (w.place a) (w.queue (w.place a) ++ [w.party a])
      submissions := Function.update w.submissions (w.party a) (w.submissions (w.party a) + 1) } away' := by
  have sleeps := asleep_update awake awake'
  have here := h.suspended a front
  have absent := fun x => h.unqueued a x front
  constructor
  case owner => exact fun u b there => h.owner u b ((sleeps u b).mp there)
  case suspended => exact fun b there => (sleeps _ b).mpr (h.suspended b ((listed b).mp there).1)
  case unqueued =>
    intro b x there member
    obtain ⟨old,other⟩ := (listed b).mp there
    rcases mem_push.mp member with before | ⟨_,same⟩
    · exact h.unqueued b x old before
    · have asleep := h.suspended b old
      dsimp only [State.goto] at same
      rw [same,here] at asleep
      exact other (Stage.asleep.inj asleep).symm
  case placed =>
    intro u b there
    rcases h.placed u b ((sleeps u b).mp there) with old | member
    · by_cases same : b = a
      · subst same
        exact .inr (mem_push.mpr (.inr ⟨rfl,(h.owner u b ((sleeps u b).mp there)).symm⟩))
      · exact .inl ((listed b).mpr ⟨old,same⟩)
    · exact .inr (mem_push.mpr (.inl member))
  case queued =>
    intro x u member
    rcases mem_push.mp member with before | ⟨rfl,rfl⟩
    · obtain ⟨b,there,same⟩ := h.queued x u before
      exact ⟨b,(sleeps u b).mpr there,same⟩
    · exact ⟨a,(sleeps _ a).mpr here,rfl⟩
  case queueNodup =>
    intro x
    dsimp only [State.goto]
    by_cases same : x = w.place a
    · subst same
      rw [Function.update_self,List.nodup_append]
      exact ⟨h.queueNodup _,List.nodup_singleton _,by simpa using fun u member => ne_of_mem_of_not_mem member (absent _)⟩
    · rw [Function.update_of_ne same]
      exact h.queueNodup x
  case counted =>
    intro u
    by_cases same : u = w.party a
    · subst same
      have once := (h.counted (w.party a)).1 ⟨⟨a,here⟩,absent⟩
      refine ⟨fun waits => absurd (mem_push.mpr (.inr ⟨rfl,rfl⟩)) (waits.2 (w.place a)),fun _ => ?_⟩
      dsimp only [State.goto]
      rw [Function.update_self,once]
    · have stays : ∀ x, u ∈ Function.update w.queue (w.place a) (w.queue (w.place a) ++ [w.party a]) x ↔ u ∈ w.queue x := by
        simp only [mem_push,same,and_false,or_false,implies_true]
      simpa only [Waits,State.goto,Function.update_of_ne same,sleeps,stays] using h.counted u

theorem Parked.pop (h : Parked w away) {x : Place} {rest : List Party} {q : Stage Addr} (front : w.queue x = t::rest)
    (awake : ∀ b, q ≠ .asleep b) : Parked { w.goto t q with queue := Function.update w.queue x rest } away := by
  have distinct := h.queueNodup x
  rw [front,List.nodup_cons] at distinct
  have within : t ∈ w.queue x := by rw [front]; exact List.mem_cons_self
  have sleeps : ∀ u b, Function.update w.stage t q u = .asleep b ↔ w.stage u = .asleep b ∧ u ≠ t := by
    intro u b
    by_cases same : u = t
    · subst same
      simp [awake b]
    · simp [same]
  have members : ∀ u y, u ∈ Function.update w.queue x rest y ↔ u ∈ w.queue y ∧ u ≠ t := by
    intro u y
    by_cases same : y = x
    · subst same
      rw [Function.update_self,front,List.mem_cons]
      constructor
      · exact fun member => ⟨.inr member,fun this => distinct.1 (this ▸ member)⟩
      · rintro ⟨rfl | member,other⟩
        · exact absurd rfl other
        · exact member
    · rw [Function.update_of_ne same]
      refine ⟨fun member => ⟨member,?_⟩,And.left⟩
      rintro rfl
      exact same (h.unique within member)
  constructor
  case owner => exact fun u a here => h.owner u a ((sleeps u a).mp here).1
  case suspended =>
    intro a there
    refine (sleeps _ a).mpr ⟨h.suspended a there,fun same => ?_⟩
    exact h.unqueued a x there (same ▸ within)
  case unqueued => exact fun a y there member => h.unqueued a y there ((members _ y).mp member).1
  case placed =>
    intro u a here
    obtain ⟨old,other⟩ := (sleeps u a).mp here
    exact (h.placed u a old).imp_right fun member => (members u _).mpr ⟨member,other⟩
  case queued =>
    intro y u member
    obtain ⟨old,other⟩ := (members u y).mp member
    obtain ⟨a,here,there⟩ := h.queued y u old
    exact ⟨a,(sleeps u a).mpr ⟨here,other⟩,there⟩
  case queueNodup =>
    intro y
    dsimp only [State.goto]
    by_cases same : y = x
    · subst same
      rw [Function.update_self]
      exact distinct.2
    · rw [Function.update_of_ne same]
      exact h.queueNodup y
  case counted =>
    intro u
    by_cases same : u = t
    · subst same
      have settled := (h.counted u).2 fun waits => waits.2 x within
      refine ⟨fun waits => ?_,fun _ => settled⟩
      obtain ⟨a,here⟩ := waits.1
      exact absurd rfl ((sleeps u a).mp here).2
    · simpa only [Waits,State.goto,sleeps,members,ne_eq,same,not_false_eq_true,and_true] using h.counted u

end

section
variable {w w' : State Party Place Addr} {linked held : List Addr} {lists : Party → List Addr} {t : Party}

omit [DecidableEq Party] [DecidableEq Place] in
theorem Lists.owner (h : Lists w linked lists) (t : Party) (a : Addr) (here : (w.stage t).waiter = some a) :
    w.party a = t ∧ w.live a = true := (h.stands t).owner a here

omit [DecidableEq Party] [DecidableEq Place] in
theorem Lists.live (h : Lists w linked lists) {a : Addr} (away : a ∈ linked ∨ ∃ u, a ∈ lists u) :
    w.live a = true ∧ w.stage (w.party a) = .asleep a := by
  have asleep := h.parked.suspended a away
  exact ⟨(h.owner _ a (by rw [asleep]; rfl)).2,asleep⟩

omit [DecidableEq Party] [DecidableEq Place] in
/-- The first of a list that has been taken sleeps, and is yet to be submitted. -/
theorem Lists.waking (h : Lists w linked lists) {a : Addr} {n : Option Addr} (here : w.stage t = .wake a n) :
    (∃ rest, lists t = a::rest ∧ Chain w.next n rest) ∧ w.stage (w.party a) = .asleep a ∧ Waits w (w.party a) := by
  have stands := h.stands t
  rw [here] at stands
  obtain ⟨rest,front,chain⟩ := Chain.some_iff.mp stands.detached
  have member : a ∈ lists t := by rw [front]; exact List.mem_cons_self
  have away : a ∈ linked ∨ ∃ u, a ∈ lists u := .inr ⟨t,member⟩
  have asleep := (h.live away).2
  exact ⟨⟨rest,front,stands.saved a n rfl ▸ chain⟩,asleep,⟨a,asleep⟩,fun x => h.parked.unqueued a x away⟩

omit [DecidableEq Party] [DecidableEq Place] in
theorem Lists.empty (h : Lists w linked lists) (none : (w.stage t).detached = none) : lists t = [] := by
  have chain := (h.stands t).detached
  rw [none] at chain
  exact Chain.none_iff.mp chain

omit [DecidableEq Party] [DecidableEq Place] in
theorem Lists.others (h : Lists w linked lists) {u : Party} (other : u ≠ t) {a b : Addr} (here : (w.stage t).waiter = some a)
    (there : (w.stage u).waiter = some b) : b ≠ a := by
  rintro rfl
  exact other ((h.owner u b there).1.symm.trans (h.owner t b here).1)

omit [DecidableEq Party] [DecidableEq Place] in
/-- The waiter of a party that is awake is in no list. -/
theorem Lists.outside (h : Lists w linked lists) {a b : Addr} (here : (w.stage t).waiter = some a)
    (awake : ∀ b, w.stage t ≠ .asleep b) (away : b ∈ linked ∨ ∃ u, b ∈ lists u) : b ≠ a := by
  rintro rfl
  have asleep := (h.live away).2
  rw [(h.owner t b here).1] at asleep
  exact awake b asleep

omit [DecidableEq Party] [DecidableEq Place] in
theorem Stands.frame {p : Stage Addr} (h : Stands w held t p) (next : ∀ a, a ∈ held ∨ p.waiter = some a → w'.next a = w.next a)
    (kept : ∀ a, p.waiter = some a → w'.party a = w.party a ∧ w'.live a = w.live a) : Stands w' held t p := by
  constructor
  case detached => exact (Chain.congr fun a member => next a (.inl member)).mpr h.detached
  case owner =>
    intro a here
    rw [(kept a here).1,(kept a here).2]
    exact h.owner a here
  case saved =>
    rintro a n rfl
    obtain ⟨rest,front,_⟩ := Chain.some_iff.mp h.detached
    rw [next a (.inl (by rw [front]; exact List.mem_cons_self))]
    exact h.saved a n rfl
  case stored =>
    rintro a o rfl
    rw [next a (.inr rfl)]
    exact h.stored a o rfl

omit [DecidableEq Place] in
theorem stands_update {q : Stage Addr} (mine : Stands w' (lists t) t q)
    (others : ∀ u, u ≠ t → Stands w' (lists u) u (w.stage u)) (u : Party) :
    Stands w' (lists u) u (Function.update w.stage t q u) := by
  by_cases same : u = t
  · subst same
    rw [Function.update_self]
    exact mine
  · rw [Function.update_of_ne same]
    exact others u same

omit [DecidableEq Place] in
theorem Lists.goto (h : Lists w linked lists) {q : Stage Addr} (awake : ∀ a, w.stage t ≠ .asleep a)
    (awake' : ∀ a, q ≠ .asleep a) (mine : Stands w (lists t) t q) : Lists (w.goto t q) linked lists := by
  constructor
  case chain => exact h.chain
  case stands => exact stands_update { mine with } fun u _ => { h.stands u with }
  case parked => exact h.parked.quiet (asleep_update awake awake') (fun _ => Iff.rfl) (fun _ _ _ => ⟨rfl,rfl⟩) rfl rfl rfl
  case apart => exact h.apart
  case heldOnce => exact h.heldOnce

omit [DecidableEq Place] in
theorem Lists.outsideCalls (h : Lists w linked lists) (awake : ∀ a, w.stage t ≠ .asleep a) (none : (w.stage t).detached = none)
    {q : Stage Addr} (same : q = .outside ∨ q = .calling) : Lists (w.goto t q) linked lists := by
  have detached := (h.stands t).detached
  rw [none] at detached
  rcases same with rfl | rfl
  · exact h.goto awake nofun ⟨detached,nofun,nofun,nofun⟩
  · exact h.goto awake nofun ⟨detached,nofun,nofun,nofun⟩

omit [DecidableEq Place] in
theorem Lists.detach (h : Lists w linked lists) (here : w.stage t = .calling) :
    Lists { w.goto t (.drain w.head) with head := none } [] (Function.update lists t linked) := by
  have none : lists t = [] := h.empty (by rw [here]; rfl)
  have members : ∀ a, (∃ u, a ∈ Function.update lists t linked u) ↔ a ∈ linked ∨ ∃ u, a ∈ lists u := by
    intro a
    constructor
    · rintro ⟨u,member⟩
      by_cases same : u = t
      · subst same
        rw [Function.update_self] at member
        exact .inl member
      · rw [Function.update_of_ne same] at member
        exact .inr ⟨u,member⟩
    · rintro (member | ⟨u,member⟩)
      · exact ⟨t,by rwa [Function.update_self]⟩
      · refine ⟨u,?_⟩
        rwa [Function.update_of_ne]
        rintro rfl
        simp [none] at member
  constructor
  case chain => rfl
  case stands =>
    apply stands_update
    case mine =>
      rw [Function.update_self]
      exact ⟨h.chain,nofun,nofun,nofun⟩
    case others =>
      intro u other
      rw [Function.update_of_ne other]
      exact { h.stands u with }
  case parked =>
    refine h.parked.quiet (asleep_update (by simp [here]) nofun) (fun a => ?_) (fun _ _ _ => ⟨rfl,rfl⟩) rfl rfl rfl
    simp [members]
  case apart => simp
  case heldOnce =>
    intro u v a first second
    by_cases mine : u = t
    · subst mine
      by_cases same : v = u
      · exact same.symm ▸ rfl
      · rw [Function.update_self] at first
        rw [Function.update_of_ne same] at second
        exact absurd first (h.apart v a second)
    · rw [Function.update_of_ne mine] at first
      by_cases same : v = t
      · subst same
        rw [Function.update_self] at second
        exact absurd second (h.apart u a first)
      · rw [Function.update_of_ne same] at second
        exact h.heldOnce u v a first second

omit [DecidableEq Place] in
theorem Lists.link (h : Lists w linked lists) {a : Addr} (here : w.stage t = .linking a w.head) :
    Lists { w.goto t (.asleep a) with
      head := some a
      suspensions := Function.update w.suspensions t (w.suspensions t + 1) } (a::linked) lists := by
  have mine := h.stands t
  rw [here] at mine
  have apart : ∀ b, b ∈ linked ∨ (∃ u, b ∈ lists u) → b ≠ a := fun b => h.outside (by rw [here]; rfl) (by simp [here])
  constructor
  case chain => exact ⟨rfl,mine.stored a _ rfl ▸ h.chain⟩
  case stands => exact stands_update ⟨mine.detached,mine.owner,nofun,nofun⟩ fun u _ => { h.stands u with }
  case parked => exact h.parked.park (by simp [here]) (mine.owner a rfl).1 (by simp [or_assoc])
  case apart =>
    intro u b member
    rw [List.mem_cons,not_or]
    exact ⟨apart b (.inr ⟨u,member⟩),h.apart u b member⟩
  case heldOnce => exact h.heldOnce

theorem Lists.pop (h : Lists w linked lists) {x : Place} {rest : List Party} {a : Addr} (front : w.queue x = t::rest)
    (here : w.stage t = .asleep a) :
    Lists { w.goto t (.inside a) with queue := Function.update w.queue x rest } linked lists := by
  have mine := h.stands t
  rw [here] at mine
  constructor
  case chain => exact h.chain
  case stands => exact stands_update ⟨mine.detached,mine.owner,nofun,nofun⟩ fun u _ => { h.stands u with }
  case parked => exact h.parked.pop front nofun
  case apart => exact h.apart
  case heldOnce => exact h.heldOnce

theorem Lists.submit (h : Lists w linked lists) {a : Addr} {n : Option Addr} {rest : List Addr} (here : w.stage t = .wake a n)
    (front : lists t = a::rest) (remains : Chain w.next n rest) :
    Lists { w.goto t (.drain n) with
      queue := Function.update w.queue (w.place a) (w.queue (w.place a) ++ [w.party a])
      submissions := Function.update w.submissions (w.party a) (w.submissions (w.party a) + 1) }
      linked (Function.update lists t rest) := by
  have distinct := (h.stands t).detached.nodup
  rw [front,List.nodup_cons] at distinct
  have first : a ∈ lists t := by rw [front]; exact List.mem_cons_self
  have kept : ∀ u b, b ∈ Function.update lists t rest u ↔ b ∈ lists u ∧ b ≠ a := by
    intro u b
    by_cases same : u = t
    · rw [same,Function.update_self,front,List.mem_cons]
      constructor
      · exact fun member => ⟨.inr member,fun this => distinct.1 (this ▸ member)⟩
      · rintro ⟨here | member,other⟩
        · exact absurd here other
        · exact member
    · rw [Function.update_of_ne same]
      refine ⟨fun member => ⟨member,?_⟩,And.left⟩
      rintro rfl
      exact same (h.heldOnce t u b first member)
  constructor
  case chain => exact h.chain
  case stands =>
    apply stands_update
    case mine =>
      rw [Function.update_self]
      exact ⟨remains,nofun,nofun,nofun⟩
    case others =>
      intro u other
      rw [Function.update_of_ne other]
      exact { h.stands u with }
  case parked =>
    refine h.parked.submit (by simp [here]) nofun (.inr ⟨t,first⟩) fun b => ?_
    simp only [kept,exists_and_right]
    constructor
    · rintro (member | ⟨member,other⟩)
      · exact ⟨.inl member,fun this => h.apart t a first (this ▸ member)⟩
      · exact ⟨.inr member,other⟩
    · rintro ⟨member | member,other⟩
      · exact .inl member
      · exact .inr ⟨member,other⟩
  case apart => exact fun u b member => h.apart u b ((kept u b).mp member).1
  case heldOnce => exact fun u v b one two => h.heldOnce u v b ((kept u b).mp one).1 ((kept v b).mp two).1

omit [DecidableEq Place] in
theorem Lists.leave (h : Lists w linked lists) {a : Addr} (here : w.stage t = .inside a) [DecidableEq Addr] :
    Lists { w.goto t .outside with live := Function.update w.live a false } linked lists := by
  have mine := h.stands t
  rw [here] at mine
  have waiter : (w.stage t).waiter = some a := by rw [here]; rfl
  constructor
  case chain => exact h.chain
  case stands =>
    apply stands_update
    case mine => exact ⟨mine.detached,nofun,nofun,nofun⟩
    case others =>
      intro u other
      refine (h.stands u).frame (fun _ _ => rfl) fun b there => ⟨rfl,?_⟩
      exact Function.update_of_ne (h.others other waiter there) ..
  case parked => exact h.parked.quiet (asleep_update (by simp [here]) nofun) (fun _ => Iff.rfl) (fun _ _ _ => ⟨rfl,rfl⟩) rfl rfl rfl
  case apart => exact h.apart
  case heldOnce => exact h.heldOnce

omit [DecidableEq Place] in
/-- A party writes the `next` of its own waiter, which is in no list. -/
theorem Lists.write (h : Lists w linked lists) [DecidableEq Addr] {a : Addr} (o : Option Addr) (here : w.stage t = .inside a)
    {q : Stage Addr} (same : q = .inside a ∨ q = .linking a o) :
    Lists { w.goto t q with next := Function.update w.next a o } linked lists := by
  have mine := h.stands t
  rw [here] at mine
  have waiter : (w.stage t).waiter = some a := by rw [here]; rfl
  have apart : ∀ b, b ∈ linked ∨ (∃ u, b ∈ lists u) → b ≠ a := fun b => h.outside waiter (by simp [here])
  have detached : Chain (Function.update w.next a o) none (lists t) :=
    (Chain.congr fun b member => Function.update_of_ne (apart b (.inr ⟨t,member⟩)) ..).mpr mine.detached
  constructor
  case chain => exact (Chain.congr fun b member => Function.update_of_ne (apart b (.inl member)) ..).mpr h.chain
  case stands =>
    apply stands_update
    case mine =>
      rcases same with rfl | rfl
      · exact ⟨detached,mine.owner,nofun,nofun⟩
      · refine ⟨detached,mine.owner,nofun,?_⟩
        rintro b p same
        cases same
        exact Function.update_self ..
    case others =>
      intro u other
      refine (h.stands u).frame ?_ fun _ _ => ⟨rfl,rfl⟩
      rintro b (member | there)
      · exact Function.update_of_ne (apart b (.inr ⟨u,member⟩)) ..
      · exact Function.update_of_ne (h.others other waiter there) ..
  case parked =>
    refine h.parked.quiet (asleep_update (by simp [here]) ?_) (fun _ => Iff.rfl) (fun _ _ _ => ⟨rfl,rfl⟩) rfl rfl rfl
    rcases same with rfl | rfl
    · exact nofun
    · exact nofun
  case apart => exact h.apart
  case heldOnce => exact h.heldOnce

omit [DecidableEq Place] in
/-- A waiter is constructed at a free address. -/
theorem Lists.enter (h : Lists w linked lists) [DecidableEq Addr] {self : Addr} {x : Place} (here : w.stage t = .outside)
    (free : w.live self = false) :
    Lists { w.goto t (.inside self) with
      next := Function.update w.next self none
      live := Function.update w.live self true
      party := Function.update w.party self t
      place := Function.update w.place self x } linked lists := by
  have mine := h.stands t
  rw [here] at mine
  have other : ∀ a, w.live a = true → a ≠ self := by
    rintro a live rfl
    rw [free] at live
    contradiction
  have apart : ∀ a, a ∈ linked ∨ (∃ u, a ∈ lists u) → a ≠ self := fun a away => other a (h.live away).1
  constructor
  case chain => exact (Chain.congr fun a member => Function.update_of_ne (apart a (.inl member)) ..).mpr h.chain
  case stands =>
    apply stands_update
    case mine =>
      refine ⟨?_,?_,nofun,nofun⟩
      · exact (Chain.congr fun a member => Function.update_of_ne (apart a (.inr ⟨t,member⟩)) ..).mpr mine.detached
      · rintro a same
        cases same
        exact ⟨Function.update_self ..,Function.update_self ..⟩
    case others =>
      intro u _
      refine (h.stands u).frame ?_ fun a there => ?_
      · rintro a (member | there)
        · exact Function.update_of_ne (apart a (.inr ⟨u,member⟩)) ..
        · exact Function.update_of_ne (other a (h.owner u a there).2) ..
      · have differs := other a (h.owner u a there).2
        exact ⟨Function.update_of_ne differs ..,Function.update_of_ne differs ..⟩
  case parked =>
    refine h.parked.quiet (asleep_update (by simp [here]) nofun) (fun _ => Iff.rfl) (fun u a asleep => ?_) rfl rfl rfl
    have differs := other a (h.owner u a (by rw [asleep]; rfl)).2
    exact ⟨Function.update_of_ne differs ..,Function.update_of_ne differs ..⟩
  case apart => exact h.apart
  case heldOnce => exact h.heldOnce

end

variable [DecidableEq Addr]

/-- A step of a party, or of whoever takes handles from the queue of a place. -/
inductive Step : State Party Place Addr → State Party Place Addr → Prop
  | stay (w) : Step w w
  | call (w t) (here : w.stage t = .outside) : Step w (w.goto t .calling)
  | back (w t) (here : w.stage t = .calling ∨ w.stage t = .drain none) : Step w (w.goto t .outside)
  | enter (w t self x) (here : w.stage t = .outside) (free : w.live self = false) : Step w { w.goto t (.inside self) with
      next := Function.update w.next self none
      live := Function.update w.live self true
      party := Function.update w.party self t
      place := Function.update w.place self x }
  | write (w t a o) (here : w.stage t = .inside a) : Step w { w with next := Function.update w.next a o }
  | load (w t a o) (here : w.stage t = .inside a) : Step w { w.goto t (.linking a o) with next := Function.update w.next a o }
  | retry (w t a o) (here : w.stage t = .linking a o) : Step w (w.goto t (.inside a))
  | link (w t a) (here : w.stage t = .linking a w.head) : Step w { w.goto t (.asleep a) with
      head := some a
      suspensions := Function.update w.suspensions t (w.suspensions t + 1) }
  | pop (w x t rest a) (front : w.queue x = t::rest) (here : w.stage t = .asleep a) : Step w { w.goto t (.inside a) with
      queue := Function.update w.queue x rest }
  | leave (w t a) (here : w.stage t = .inside a) : Step w { w.goto t .outside with live := Function.update w.live a false }
  | detach (w t) (here : w.stage t = .calling) : Step w { w.goto t (.drain w.head) with head := none }
  | take (w t a) (here : w.stage t = .drain (some a)) : Step w (w.goto t (.wake a (w.next a)))
  | submit (w t a n) (here : w.stage t = .wake a n) : Step w { w.goto t (.drain n) with
      queue := Function.update w.queue (w.place a) (w.queue (w.place a) ++ [w.party a])
      submissions := Function.update w.submissions (w.party a) (w.submissions (w.party a) + 1) }

section
variable {w : State Party Place Addr} {t : Party}

omit [DecidableEq Party] [DecidableEq Place] [DecidableEq Addr] in
theorem Linked.live (h : Linked w) {a : Addr} (here : (w.stage t).waiter = some a ∨ (w.stage t).detached = some a) :
    w.live a = true := by
  obtain ⟨linked,held,lists⟩ := h
  rcases here with waiter | first
  · exact (lists.owner t a waiter).2
  · have chain := (lists.stands t).detached
    rw [first] at chain
    obtain ⟨rest,front,_⟩ := Chain.some_iff.mp chain
    exact (lists.live (.inr ⟨t,by rw [front]; exact List.mem_cons_self⟩)).1

omit [DecidableEq Party] [DecidableEq Place] [DecidableEq Addr] in
theorem Linked.queued (h : Linked w) {x : Place} (member : t ∈ w.queue x) : ∃ a, w.stage t = .asleep a ∧ w.place a = x := by
  obtain ⟨_,_,lists⟩ := h
  exact lists.parked.queued x t member

omit [DecidableEq Party] [DecidableEq Place] [DecidableEq Addr] in
theorem Linked.queueNodup (h : Linked w) (x : Place) : (w.queue x).Nodup := by
  obtain ⟨_,_,lists⟩ := h
  exact lists.parked.queueNodup x

omit [DecidableEq Party] [DecidableEq Place] [DecidableEq Addr] in
theorem Linked.counted (h : Linked w) (t : Party) :
    (Waits w t → w.suspensions t = w.submissions t + 1) ∧ (¬ Waits w t → w.suspensions t = w.submissions t) := by
  obtain ⟨_,_,lists⟩ := h
  exact lists.parked.counted t

omit [DecidableEq Party] [DecidableEq Place] [DecidableEq Addr] in
theorem Linked.waking (h : Linked w) {a : Addr} {n : Option Addr} (here : w.stage t = .wake a n) :
    w.stage (w.party a) = .asleep a ∧ Waits w (w.party a) := by
  obtain ⟨_,_,lists⟩ := h
  exact (lists.waking here).2

omit [DecidableEq Party] [DecidableEq Place] [DecidableEq Addr] in
/-- With an empty list, of which nobody is waking the rest, nobody waits for a submission. -/
theorem Linked.none_waits (h : Linked w) (empty : w.head = none) (quiet : ∀ u, (w.stage u).detached = none) (t : Party) :
    ¬ Waits w t := by
  obtain ⟨linked,held,lists⟩ := h
  rintro ⟨⟨a,asleep⟩,unqueued⟩
  have chain := lists.chain
  rw [empty,Chain.none_iff] at chain
  have bare : ∀ u, held u = [] := fun u => lists.empty (quiet u)
  have queued := lists.parked.placed t a asleep
  simp only [chain,bare,List.not_mem_nil,exists_false,or_self,false_or] at queued
  exact unqueued _ queued

end

theorem Linked.step {w w' : State Party Place Addr} (h : Linked w) (step : Step w w') : Linked w' := by
  obtain ⟨linked,held,lists⟩ := h
  cases step with
  | stay => exact ⟨linked,held,lists⟩
  | call t here => exact ⟨linked,held,lists.outsideCalls (by simp [here]) (by rw [here]; rfl) (.inr rfl)⟩
  | back t here =>
    rcases here with here | here
    · exact ⟨linked,held,lists.outsideCalls (by simp [here]) (by rw [here]; rfl) (.inl rfl)⟩
    · exact ⟨linked,held,lists.outsideCalls (by simp [here]) (by rw [here]; rfl) (.inl rfl)⟩
  | enter t self x here free => exact ⟨linked,held,lists.enter here free⟩
  | write t a o here =>
    have written := lists.write o here (.inl rfl)
    rw [w.goto_self t here] at written
    exact ⟨linked,held,written⟩
  | load t a o here => exact ⟨linked,held,lists.write o here (.inr rfl)⟩
  | retry t a o here =>
    have mine := lists.stands t
    rw [here] at mine
    exact ⟨linked,held,lists.goto (by simp [here]) nofun ⟨mine.detached,mine.owner,nofun,nofun⟩⟩
  | link t a here => exact ⟨_,held,lists.link here⟩
  | pop x t rest a front here => exact ⟨linked,held,lists.pop front here⟩
  | leave t a here => exact ⟨linked,held,lists.leave here⟩
  | detach t here => exact ⟨_,_,lists.detach here⟩
  | take t a here =>
    have mine := lists.stands t
    rw [here] at mine
    refine ⟨linked,held,lists.goto (by simp [here]) nofun ⟨mine.detached,nofun,?_,nofun⟩⟩
    rintro b n same
    cases same
    rfl
  | submit t a n here =>
    obtain ⟨⟨rest,front,remains⟩,_⟩ := lists.waking here
    exact ⟨linked,_,lists.submit here front remains⟩

/-- A machine with a list of waiters. -/
structure Keeps {S Action : Type*} (m : Machine S Action) (waiters : S → State Party Place Addr) : Prop where
  fresh : ∀ s, m.start s → Fresh (waiters s)
  step : ∀ s s' a, m.step s a = some s' → Step (waiters s) (waiters s')

/-- By the actions `goesOn` a party goes on that is neither outside nor asleep, and whoever
takes handles from a queue as long as there is one. -/
structure Settles {S Action : Type*} (m : Machine S Action) (goesOn : Action → Prop) (waiters : S → State Party Place Addr) :
    Prop where
  goes : ∀ s t, (waiters s).stage t ≠ .outside → (∀ a, (waiters s).stage t ≠ .asleep a) → ∃ s', m.Moves goesOn s s'
  pops : ∀ s x t rest a, (waiters s).queue x = t::rest → (waiters s).stage t = .asleep a → ∃ s', m.Moves goesOn s s'
  only : ∀ s s', m.Moves goesOn s s' → (∃ t, (waiters s).stage t ≠ .outside) ∨ ∃ x, (waiters s).queue x ≠ []

section
variable {S Action : Type*} {m : Machine S Action} {goesOn : Action → Prop} {waiters : S → State Party Place Addr} {s : S}

theorem Keeps.linked (keeps : Keeps m waiters) (reachable : m.Reachable s) : Linked (waiters s) :=
  Machine.Within.invariant (fun s fresh => (keeps.fresh s fresh).linked)
    (fun s s' a before _ moved => before.step (keeps.step s s' a moved)) reachable

omit [DecidableEq Party] [DecidableEq Place] [DecidableEq Addr] in
/-- Where nothing can move every party is outside or asleep, and the sleepers are the list. -/
theorem Settles.rests (settles : Settles m goesOn waiters) {linked : List Addr} {held : Party → List Addr}
    (lists : Lists (waiters s) linked held) (stuck : ∀ s', ¬ m.Moves goesOn s s') :
    (∀ t, (waiters s).stage t = .outside ∨ ∃ a, (waiters s).stage t = .asleep a) ∧ (∀ x, (waiters s).queue x = []) ∧
      ∀ a, a ∈ linked ↔ ∃ t, (waiters s).stage t = .asleep a := by
  have rests : ∀ t, (waiters s).stage t = .outside ∨ ∃ a, (waiters s).stage t = .asleep a := by
    intro t
    by_contra busy
    rw [not_or,not_exists] at busy
    obtain ⟨s',moves⟩ := settles.goes s t busy.1 busy.2
    exact stuck s' moves
  have taken : ∀ x, (waiters s).queue x = [] := by
    intro x
    cases front : (waiters s).queue x with
    | nil => rfl
    | cons t rest =>
      obtain ⟨a,asleep,_⟩ := lists.parked.queued x t (by simp [front])
      obtain ⟨s',moves⟩ := settles.pops s x t rest a front asleep
      exact absurd moves (stuck s')
  refine ⟨rests,taken,fun a => ⟨fun member => ⟨_,lists.parked.suspended a (.inl member)⟩,?_⟩⟩
  rintro ⟨t,asleep⟩
  have bare : ∀ u, held u = [] := fun u => lists.empty (by rcases rests u with here | ⟨b,here⟩ <;> rw [here] <;> rfl)
  simpa [bare,taken] using lists.parked.placed t a asleep

omit [DecidableEq Party] [DecidableEq Place] [DecidableEq Addr] in
theorem Settles.still (settles : Settles m goesOn waiters) (outside : ∀ t, (waiters s).stage t = .outside)
    (taken : ∀ x, (waiters s).queue x = []) (s' : S) : ¬ m.Moves goesOn s s' := by
  intro moves
  rcases settles.only s s' moves with ⟨t,busy⟩ | ⟨x,some⟩
  · exact busy (outside t)
  · exact some (taken x)

end
end TinyCoro.Library.WaitList
