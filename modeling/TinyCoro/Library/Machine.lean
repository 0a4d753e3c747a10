import Mathlib.Logic.Function.Basic

/-! Transition systems whose steps are computed: a partial step function over
explicit actions, runs as lists of actions, invariants over runs whose steps all
meet a condition, and forward simulation with the visible events of a run. -/
namespace TinyCoro.Library

namespace TwoParties

/-- For the numerals of two parties in concrete runs. -/
scoped instance twoParties : @NeZero Nat Zero.ofOfNat0 2 := ⟨Nat.succ_ne_zero 1⟩

end TwoParties

structure Machine (State Action : Type*) where
  start : State → Prop
  step : State → Action → Option State

namespace Machine
variable {State Action : Type*} (m : Machine State Action)

def run (s : State) : List Action → Option State
  | [] => some s
  | a::rest => (m.step s a).bind fun t => run t rest

/-- The states reached by runs whose every step meets `ok` in the state before it. -/
inductive Within (ok : State → Action → Prop) : State → Prop
  | start {s} (initial : m.start s) : Within ok s
  | step {s t a} (before : Within ok s) (meets : ok s a) (moved : m.step s a = some t) : Within ok t

def Reachable : State → Prop := m.Within fun _ _ => True

theorem Within.invariant {m : Machine State Action} {ok : State → Action → Prop} {inv : State → Prop}
    (initial : ∀ s, m.start s → inv s)
    (preserved : ∀ s t a, inv s → ok s a → m.step s a = some t → inv t)
    {s : State} (within : m.Within ok s) : inv s := by
  induction within with
  | start h => exact initial _ h
  | step _ meets moved ih => exact preserved _ _ _ ih meets moved

theorem Within.weaken {m : Machine State Action} {ok ok' : State → Action → Prop}
    (weaker : ∀ s a, ok s a → ok' s a) {s : State} (within : m.Within ok s) : m.Within ok' s := by
  induction within with
  | start h => exact .start h
  | step _ meets moved ih => exact .step ih (weaker _ _ meets) moved

theorem Within.reachable {m : Machine State Action} {ok : State → Action → Prop} {s : State}
    (within : m.Within ok s) : m.Reachable s := within.weaken fun _ _ _ => trivial

/-- A part of the state whose changes are steps of another machine. -/
theorem reachable_project {State' Action' : Type*} {n : Machine State' Action'} (f : State → State')
    (starts : ∀ s, m.start s → n.start (f s))
    (moves : ∀ s t a, m.step s a = some t → f t = f s ∨ ∃ b, n.step (f s) b = some (f t))
    {s : State} (reachable : m.Reachable s) : n.Reachable (f s) := by
  induction reachable with
  | start h => exact .start (starts _ h)
  | step _ _ moved ih =>
    rcases moves _ _ _ moved with same | ⟨b,moved'⟩
    · exact same ▸ ih
    · exact .step ih trivial moved'

/-- The same run with every step's condition decided on the way. -/
def guardedRun (ok : State → Action → Prop) [∀ s a, Decidable (ok s a)] (s : State) : List Action → Option State
  | [] => some s
  | a::rest => if ok s a then (m.step s a).bind fun t => guardedRun ok t rest else none

theorem guardedRun_within {ok : State → Action → Prop} [∀ s a, Decidable (ok s a)] (actions : List Action)
    (s t : State) (within : m.Within ok s) (ran : m.guardedRun ok s actions = some t) : m.Within ok t := by
  induction actions generalizing s with
  | nil => cases Option.some.inj ran; exact within
  | cons a rest ih =>
    unfold guardedRun at ran
    split at ran
    next meets =>
      obtain ⟨next,moved,ran⟩ := Option.bind_eq_some_iff.mp ran
      exact ih next (.step within meets moved) ran
    next => contradiction

/-- The same transitions, where each step must meet a condition. -/
def restrict (ok : State → Action → Prop) [∀ s a, Decidable (ok s a)] : Machine State Action where
  start := m.start
  step s a := if ok s a then m.step s a else none

theorem restrict_step {m : Machine State Action} {ok : State → Action → Prop} [∀ s a, Decidable (ok s a)] {s t : State}
    {a : Action} : (m.restrict ok).step s a = some t ↔ ok s a ∧ m.step s a = some t := by
  rw [restrict,Option.ite_none_right_eq_some]

theorem run_reachable (actions : List Action) (s t : State)
    (reached : m.Reachable s) (ran : m.run s actions = some t) : m.Reachable t := by
  induction actions generalizing s with
  | nil => cases Option.some.inj ran; exact reached
  | cons a rest ih =>
    obtain ⟨next,moved,ran⟩ := Option.bind_eq_some_iff.mp ran
    exact ih next (.step reached trivial moved) ran

theorem run_append (first second : List Action) (s : State) :
    m.run s (first++second) = (m.run s first).bind fun t => m.run t second := by
  induction first generalizing s with
  | nil => rfl
  | cons a rest ih =>
    simp only [List.cons_append,run]
    cases m.step s a with
    | none => rfl
    | some t => simp only [Option.bind_some,ih t]

theorem run_single (a : Action) (s : State) : m.run s [a] = m.step s a := by
  cases moved : m.step s a <;> simp [run,moved]

theorem Within.exists_run {m : Machine State Action} {ok : State → Action → Prop} {s : State} (within : m.Within ok s) :
    ∃ s₀ actions, m.start s₀ ∧ m.run s₀ actions = some s := by
  induction within with
  | start initial => exact ⟨_,[],initial,rfl⟩
  | @step s t a _ _ moved ih =>
    obtain ⟨s₀,actions,initial,ran⟩ := ih
    refine ⟨s₀,actions ++ [a],initial,?_⟩
    rw [run_append,ran,Option.bind_some,run_single]
    exact moved

def Repeats (a : Action) (s t : State) : Prop := ∃ n, m.run s (List.replicate n a) = some t

theorem Repeats.refl (a : Action) (s : State) : m.Repeats a s s := ⟨0,rfl⟩

theorem Repeats.head {m : Machine State Action} {a : Action} {s t u : State} (moved : m.step s a = some t)
    (later : m.Repeats a t u) : m.Repeats a s u := by
  obtain ⟨n,ran⟩ := later
  refine ⟨n+1,?_⟩
  rw [List.replicate_succ,run,moved]
  exact ran

theorem Repeats.trans {m : Machine State Action} {a : Action} {s t u : State} (first : m.Repeats a s t)
    (later : m.Repeats a t u) : m.Repeats a s u := by
  obtain ⟨n,ran⟩ := first
  obtain ⟨k,ran'⟩ := later
  refine ⟨n+k,?_⟩
  rw [← List.replicate_append_replicate,run_append,ran]
  exact ran'

def Always (p : State → Prop) (s : State) : List Action → Prop
  | [] => p s
  | a::rest => p s ∧ ∀ t, m.step s a = some t → Always p t rest

/-- Every step of a run meets `ok` in the state before it. -/
def Meets (ok : State → Action → Prop) (s : State) : List Action → Prop
  | [] => True
  | a::rest => ok s a ∧ ∀ t, m.step s a = some t → Meets ok t rest

theorem guardedRun_meets {ok : State → Action → Prop} [∀ s a, Decidable (ok s a)] (actions : List Action) (s t : State)
    (ran : m.guardedRun ok s actions = some t) : m.Meets ok s actions ∧ m.run s actions = some t := by
  induction actions generalizing s with
  | nil => exact ⟨trivial,ran⟩
  | cons a rest ih =>
    unfold guardedRun at ran
    split at ran
    next meets =>
      obtain ⟨next,moved,ran⟩ := Option.bind_eq_some_iff.mp ran
      obtain ⟨later,reaches⟩ := ih next ran
      refine ⟨⟨meets,fun u moved' => ?_⟩,Option.bind_eq_some_iff.mpr ⟨next,moved,reaches⟩⟩
      cases Option.some.inj (moved.symm.trans moved')
      exact later
    next => contradiction

theorem meets_single {m : Machine State Action} {ok : State → Action → Prop} {s : State} {a : Action} (p : Prop) [Decidable p]
    (meets : p → ok s a) : m.Meets ok s (if p then [a] else []) := by
  split
  next here => exact ⟨meets here,fun _ _ => trivial⟩
  next => trivial

theorem meets_of_forall {m : Machine State Action} {ok : State → Action → Prop} {actions : List Action} {s : State}
    (meets : ∀ a ∈ actions, ∀ s, ok s a) : m.Meets ok s actions := by
  induction actions generalizing s with
  | nil => trivial
  | cons a rest ih => exact ⟨meets a List.mem_cons_self s,fun _ _ => ih fun b later => meets b (List.mem_cons_of_mem a later)⟩

theorem Meets.append {m : Machine State Action} {ok : State → Action → Prop} {first second : List Action} {s : State}
    (meets : m.Meets ok s first) (later : ∀ t, m.Meets ok t second) : m.Meets ok s (first ++ second) := by
  induction first generalizing s with
  | nil => exact later s
  | cons a rest ih => exact ⟨meets.1,fun t moved => ih (meets.2 t moved)⟩

theorem Meets.within {m : Machine State Action} {ok : State → Action → Prop} {actions : List Action} {s t : State}
    (within : m.Within ok s) (meets : m.Meets ok s actions) (ran : m.run s actions = some t) : m.Within ok t := by
  induction actions generalizing s with
  | nil => exact Option.some.inj ran ▸ within
  | cons a rest ih =>
    obtain ⟨next,moved,ran⟩ := Option.bind_eq_some_iff.mp ran
    exact ih (.step within meets.1 moved) (meets.2 next moved) ran

theorem Meets.invariant {m : Machine State Action} {ok : State → Action → Prop} (inv : State → Prop)
    (preserved : ∀ s t a, inv s → ok s a → m.step s a = some t → inv t) {actions : List Action} {s t : State} (before : inv s)
    (meets : m.Meets ok s actions) (ran : m.run s actions = some t) : inv t := by
  induction actions generalizing s with
  | nil => exact Option.some.inj ran ▸ before
  | cons a rest ih =>
    obtain ⟨next,moved,ran⟩ := Option.bind_eq_some_iff.mp ran
    exact ih (preserved s next a before meets.1 moved) (meets.2 next moved) ran

theorem run_invariant {m : Machine State Action} (inv : State → Prop)
    (preserved : ∀ s t a, inv s → m.step s a = some t → inv t) {actions : List Action} {s t : State} (before : inv s)
    (ran : m.run s actions = some t) : inv t := by
  have meets : m.Meets (fun _ _ => True) s actions := meets_of_forall fun _ _ _ => trivial
  exact meets.invariant inv (fun s t a holds _ => preserved s t a holds) before ran

theorem Always.last {m : Machine State Action} {p : State → Prop} {actions : List Action} {s t : State}
    (always : m.Always p s actions) (ran : m.run s actions = some t) : p t := by
  induction actions generalizing s with
  | nil => exact Option.some.inj ran ▸ always
  | cons a rest ih =>
    obtain ⟨next,moved,ran⟩ := Option.bind_eq_some_iff.mp ran
    exact ih (always.2 next moved) ran

theorem Meets.weaken {m : Machine State Action} (inv : State → Prop) {ok ok' : State → Action → Prop}
    (preserved : ∀ s t a, inv s → ok s a → m.step s a = some t → inv t)
    (weaker : ∀ s t a, inv s → ok s a → m.step s a = some t → ok' s a) (actions : List Action) (s u : State)
    (ran : m.run s actions = some u) (before : inv s) (meets : m.Meets ok s actions) : m.Meets ok' s actions := by
  induction actions generalizing s with
  | nil => trivial
  | cons a rest ih =>
    obtain ⟨here,tail⟩ := meets
    obtain ⟨next,moved,ran⟩ := Option.bind_eq_some_iff.mp ran
    refine ⟨weaker s next a before here moved,fun t moved' => ?_⟩
    cases Option.some.inj (moved.symm.trans moved')
    exact ih next ran (preserved s next a before here moved) (tail next moved)

/-- A condition on steps that is exact for one step is exact for runs. -/
theorem always_iff_meets {m : Machine State Action} (inv : State → Prop) {p : State → Prop} {ok : State → Action → Prop}
    (preserved : ∀ s t a, inv s → m.step s a = some t → inv t)
    (exact : ∀ s t a, inv s → p s → m.step s a = some t → (p t ↔ ok s a))
    (actions : List Action) (s t : State) (ran : m.run s actions = some t) (before : inv s) (holds : p s) :
    m.Always p s actions ↔ m.Meets ok s actions := by
  induction actions generalizing s with
  | nil => exact iff_of_true holds trivial
  | cons a rest ih =>
    obtain ⟨next,moved,ran⟩ := Option.bind_eq_some_iff.mp ran
    have step := exact s next a before holds moved
    have later := ih next ran (preserved s next a before moved)
    constructor
    · rintro ⟨_,always⟩
      have after : p next := by
        have tail := always next moved
        cases rest with
        | nil => exact tail
        | cons b rest => exact tail.1
      refine ⟨step.mp after,fun u moved' => ?_⟩
      cases Option.some.inj (moved.symm.trans moved')
      exact (later after).mp (always next moved)
    · rintro ⟨meets,tail⟩
      refine ⟨holds,fun u moved' => ?_⟩
      cases Option.some.inj (moved.symm.trans moved')
      exact (later (step.mpr meets)).mpr (tail next moved)

/-- Everything a run of `m` shows to the outside, in the order of its steps. -/
def trace {Event : Type*} (shows : State → Action → List Event) (s : State) : List Action → List Event
  | [] => []
  | a::rest => shows s a ++ (m.step s a).elim [] fun t => trace shows t rest

/-- An invariant over the state and everything shown so far. -/
theorem trace_invariant {Event : Type*} {m : Machine State Action} {shows : State → Action → List Event}
    {inv : List Event → State → Prop}
    (preserved : ∀ events s t a, inv events s → m.step s a = some t → inv (events ++ shows s a) t)
    (actions : List Action) (events : List Event) (s t : State) (before : inv events s)
    (ran : m.run s actions = some t) : inv (events ++ m.trace shows s actions) t := by
  induction actions generalizing events s with
  | nil =>
    cases Option.some.inj ran
    rwa [trace,List.append_nil]
  | cons a rest ih =>
    obtain ⟨next,moved,ran⟩ := Option.bind_eq_some_iff.mp ran
    rw [trace,moved,Option.elim_some,← List.append_assoc]
    exact ih _ next (preserved events s next a before moved) ran

/-- `related` is a forward simulation of `m` by `n`: each step of `m` is matched
by the events it shows, which `n` can perform. -/
structure Simulates {State' Event : Type*} (n : Machine State' Event)
    (shows : State → Action → List Event) (related : State → State' → Prop) : Prop where
  start : ∀ s, m.start s → ∃ t, n.start t ∧ related s t
  step : ∀ s s' t a, related s t → m.step s a = some s' →
    ∃ t', n.run t (shows s a) = some t' ∧ related s' t'

/-- Under a simulation the shown trace of every run is a run of the other machine. -/
theorem Simulates.run {State' Event : Type*} {m : Machine State Action} {n : Machine State' Event}
    {shows : State → Action → List Event} {related : State → State' → Prop}
    (simulates : m.Simulates n shows related) (actions : List Action) (s s' : State) (t : State')
    (together : related s t) (ran : m.run s actions = some s') :
    ∃ t', n.run t (m.trace shows s actions) = some t' ∧ related s' t' := by
  induction actions generalizing s t with
  | nil => cases Option.some.inj ran; exact ⟨t,rfl,together⟩
  | cons a rest ih =>
    obtain ⟨next,moved,ran⟩ := Option.bind_eq_some_iff.mp ran
    obtain ⟨u,first,together⟩ := simulates.step s next t a together moved
    obtain ⟨t',second,together⟩ := ih next u together ran
    refine ⟨t',?_,together⟩
    simp only [trace,moved,Option.elim_some,run_append,first,Option.bind_some,second]

end Machine
end TinyCoro.Library
