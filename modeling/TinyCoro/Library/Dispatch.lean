import TinyCoro.Library.Machine

/-! Work that producers hand over and consumers take. A producer has at most one
item under way, a consumer takes from the front of its own queue, and when it
closes it drops what is left there. -/
namespace TinyCoro.Library

structure Dispatch (Producer Consumer Item : Type*) where
  pending : Producer → Option Item
  queue : Consumer → List Item
  isOpen : Consumer → Bool

namespace Dispatch
variable {Producer Consumer Item : Type*} [DecidableEq Producer] [DecidableEq Consumer] [DecidableEq Item]

/-- `give` is an item that comes to a queue from somewhere else. -/
inductive Event (Producer Consumer Item : Type*)
  | accept (p : Producer) (x : Item)
  | place (p : Producer) (c : Consumer) (x : Item)
  | give (c : Consumer) (x : Item)
  | take (c : Consumer) (x : Item)
  | close (c : Consumer) (left : List Item)
  deriving DecidableEq

def append (d : Dispatch Producer Consumer Item) (c : Consumer) (x : Item) : Consumer → List Item :=
  Function.update d.queue c (d.queue c ++ [x])

def step (d : Dispatch Producer Consumer Item) : Event Producer Consumer Item → Option (Dispatch Producer Consumer Item)
  | .accept p x => if d.pending p = none then some { d with pending := Function.update d.pending p (some x) } else none
  | .place p c x =>
    if d.pending p = some x then some { d with pending := Function.update d.pending p none, queue := d.append c x } else none
  | .give c x => some { d with queue := d.append c x }
  | .take c x =>
    match d.queue c with
    | [] => none
    | y::rest => if d.isOpen c ∧ y = x then some { d with queue := Function.update d.queue c rest } else none
  | .close c left =>
    if d.isOpen c ∧ d.queue c = left then
      some { d with queue := Function.update d.queue c [], isOpen := Function.update d.isOpen c false }
    else none

/-- Nothing is under way, and every consumer takes. -/
def Idle (d : Dispatch Producer Consumer Item) : Prop := (∀ p, d.pending p = none) ∧ ∀ c, d.isOpen c = true

def machine (Producer Consumer Item : Type*) [DecidableEq Producer] [DecidableEq Consumer] [DecidableEq Item] :
    Machine (Dispatch Producer Consumer Item) (Event Producer Consumer Item) := ⟨Idle,step⟩

section
variable (p : Producer) (c : Consumer)

def accepted : List (Event Producer Consumer Item) → List Item :=
  List.filterMap fun | .accept q x => if q = p then some x else none | _ => none

def placed : List (Event Producer Consumer Item) → List (Consumer × Item) :=
  List.filterMap fun | .place q c x => if q = p then some (c,x) else none | _ => none

/-- What has come to the queue, with its producer if it has one. -/
def arrived : List (Event Producer Consumer Item) → List (Option Producer × Item) :=
  List.filterMap fun
    | .place q c' x => if c' = c then some (some q,x) else none
    | .give c' x => if c' = c then some (none,x) else none
    | _ => none

def taken : List (Event Producer Consumer Item) → List Item :=
  List.filterMap fun | .take c' x => if c' = c then some x else none | _ => none

def dropped : List (Event Producer Consumer Item) → List Item :=
  List.flatMap fun | .close c' left => if c' = c then left else [] | _ => []

omit [DecidableEq Item] in
theorem arrived_from (events : List (Event Producer Consumer Item)) :
    ((arrived c events).filter fun entry => entry.1 = some p).map Prod.snd =
      ((placed p events).filter fun entry => entry.1 = c).map Prod.snd := by
  induction events with
  | nil => rfl
  | cons e rest ih =>
    cases e with
    | place q c' x =>
      by_cases same : q = p <;> by_cases here : c' = c <;> simpa [arrived,placed,same,here] using ih
    | give c' x => by_cases here : c' = c <;> simpa [arrived,placed,here] using ih
    | accept q x | take c' x | close c' left => simpa [arrived,placed] using ih

end

section
variable {d d' : Dispatch Producer Consumer Item} {e : Event Producer Consumer Item}

theorem step_pending (moved : d.step e = some d') (p : Producer) :
    (d.pending p).toList ++ accepted p [e] = (placed p [e]).map Prod.snd ++ (d'.pending p).toList := by
  cases e with
  | accept q x =>
    simp only [step] at moved
    split at moved
    next none =>
      cases moved
      by_cases same : q = p
      · subst same
        simp [accepted,placed,none]
      · simp [accepted,placed,same,Function.update_of_ne (Ne.symm same)]
    next => contradiction
  | place q c x =>
    simp only [step] at moved
    split at moved
    next some =>
      cases moved
      by_cases same : q = p
      · subst same
        simp [accepted,placed,some]
      · simp [accepted,placed,same,Function.update_of_ne (Ne.symm same)]
    next => contradiction
  | give c x => cases moved; simp [accepted,placed]
  | take c x =>
    simp only [step] at moved
    repeat' split at moved
    all_goals cases moved
    simp [accepted,placed]
  | close c left =>
    simp only [step] at moved
    split at moved
    · cases moved
      simp [accepted,placed]
    · contradiction

theorem step_queue (moved : d.step e = some d') (c : Consumer) :
    d.queue c ++ (arrived c [e]).map Prod.snd = taken c [e] ++ dropped c [e] ++ d'.queue c ∧
      (d.isOpen c = false → taken c [e] = [] ∧ dropped c [e] = [] ∧ d'.isOpen c = false) ∧
      (d'.isOpen c = true → dropped c [e] = []) := by
  cases e with
  | accept q x =>
    simp only [step] at moved
    split at moved
    · cases moved
      simp [arrived,taken,dropped]
    · contradiction
  | place q c' x =>
    simp only [step] at moved
    split at moved
    next =>
      cases moved
      by_cases same : c' = c
      · subst same
        simp [arrived,taken,dropped,append]
      · simp [arrived,taken,dropped,append,same,Function.update_of_ne (Ne.symm same)]
    next => contradiction
  | give c' x =>
    cases moved
    by_cases same : c' = c
    · subst same
      simp [arrived,taken,dropped,append]
    · simp [arrived,taken,dropped,append,same,Function.update_of_ne (Ne.symm same)]
  | take c' x =>
    simp only [step] at moved
    split at moved
    next => contradiction
    next y rest front =>
      split at moved
      next holds =>
        obtain ⟨opened,rfl⟩ := holds
        cases moved
        by_cases same : c' = c
        · subst same
          simp [arrived,taken,dropped,front,opened]
        · simp [arrived,taken,dropped,same,Function.update_of_ne (Ne.symm same)]
      next => contradiction
  | close c' left =>
    simp only [step] at moved
    split at moved
    next holds =>
      obtain ⟨opened,rfl⟩ := holds
      cases moved
      by_cases same : c' = c
      · subst same
        simp [arrived,taken,dropped,opened]
      · simp [arrived,taken,dropped,same,Function.update_of_ne (Ne.symm same)]
    next => contradiction

end

section
variable {d d' : Dispatch Producer Consumer Item} {events : List (Event Producer Consumer Item)}

/-- Every item handed over has been placed, in the same order, but for the one under way. -/
theorem run_pending (ran : (machine Producer Consumer Item).run d events = some d') (p : Producer) :
    (d.pending p).toList ++ accepted p events = (placed p events).map Prod.snd ++ (d'.pending p).toList := by
  induction events generalizing d with
  | nil => cases Option.some.inj ran; simp [accepted,placed]
  | cons e rest ih =>
    obtain ⟨next,moved,ran⟩ := Option.bind_eq_some_iff.mp ran
    have first := step_pending moved p
    have later := ih ran
    calc (d.pending p).toList ++ accepted p (e::rest)
        = ((d.pending p).toList ++ accepted p [e]) ++ accepted p rest := by
          rw [List.append_assoc,accepted,← List.filterMap_append,List.singleton_append]
      _ = (placed p [e]).map Prod.snd ++ ((placed p rest).map Prod.snd ++ (d'.pending p).toList) := by
          rw [first,List.append_assoc,later]
      _ = (placed p (e::rest)).map Prod.snd ++ (d'.pending p).toList := by
          rw [← List.append_assoc,← List.map_append,placed,← List.filterMap_append,List.singleton_append]

theorem run_closed (ran : (machine Producer Consumer Item).run d events = some d') (c : Consumer) (closed : d.isOpen c = false) :
    taken c events = [] ∧ dropped c events = [] := by
  induction events generalizing d with
  | nil => exact ⟨rfl,rfl⟩
  | cons e rest ih =>
    obtain ⟨next,moved,ran⟩ := Option.bind_eq_some_iff.mp ran
    obtain ⟨takes,drops,still⟩ := (step_queue moved c).2.1 closed
    obtain ⟨takes',drops'⟩ := ih ran still
    constructor
    · rw [taken,← List.singleton_append,List.filterMap_append]
      exact List.append_eq_nil_iff.mpr ⟨takes,takes'⟩
    · rw [dropped,← List.singleton_append,List.flatMap_append]
      exact List.append_eq_nil_iff.mpr ⟨drops,drops'⟩

/-- First come, first served: what has been taken, what has been dropped and what is
left make up all that was there or came, in its order. -/
theorem run_queue (ran : (machine Producer Consumer Item).run d events = some d') (c : Consumer) :
    d.queue c ++ (arrived c events).map Prod.snd = taken c events ++ dropped c events ++ d'.queue c := by
  induction events generalizing d with
  | nil => cases Option.some.inj ran; simp [arrived,taken,dropped]
  | cons e rest ih =>
    obtain ⟨next,moved,ran⟩ := Option.bind_eq_some_iff.mp ran
    obtain ⟨first,_,drops⟩ := step_queue moved c
    have later := ih ran
    -- after a drop the consumer is closed and takes nothing more
    have order : dropped c [e] ++ taken c rest = taken c rest ++ dropped c [e] := by
      cases opened : next.isOpen c with
      | true => rw [drops opened,List.nil_append,List.append_nil]
      | false => rw [(run_closed ran c opened).1,List.nil_append,List.append_nil]
    calc d.queue c ++ (arrived c (e::rest)).map Prod.snd
        = (d.queue c ++ (arrived c [e]).map Prod.snd) ++ (arrived c rest).map Prod.snd := by
          rw [List.append_assoc,← List.map_append,arrived,← List.filterMap_append,List.singleton_append]
      _ = taken c [e] ++ (dropped c [e] ++ taken c rest) ++ dropped c rest ++ d'.queue c := by
          rw [first,List.append_assoc,later]
          simp only [List.append_assoc]
      _ = (taken c [e] ++ taken c rest) ++ (dropped c [e] ++ dropped c rest) ++ d'.queue c := by
          rw [order]
          simp only [List.append_assoc]
      _ = taken c (e::rest) ++ dropped c (e::rest) ++ d'.queue c := by
          rw [taken,← List.filterMap_append,dropped,← List.flatMap_append,List.singleton_append]

end
end Dispatch
end TinyCoro.Library
