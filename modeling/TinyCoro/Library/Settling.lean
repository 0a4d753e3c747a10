import Mathlib.Algebra.Order.BigOperators.Group.Finset
import Mathlib.Data.Prod.Lex
import Mathlib.Data.Set.Finite.Basic
import Mathlib.Logic.Relation
import Mathlib.Order.WellFounded
import TinyCoro.Library.Machine
import TinyCoro.Library.Tally

/-! Calls that come to an end under every schedule: finitely many actors are inside a
call, and what is left for them to do, in a well-founded order, gets less with every step. -/
namespace TinyCoro.Library

section
variable {ι : Type*} [DecidableEq ι] {B : Finset ι} {f f' : ι → Nat} {t : ι}

theorem sum_moved (shared shared' : Nat) (member : t ∈ B) (others : ∀ u, u ≠ t → f' u = f u)
    (less : shared' + f' t < shared + f t) : shared' + ∑ u ∈ B, f' u < shared + ∑ u ∈ B, f u := by
  have changed := sum_changed f f' member others
  omega

theorem sum_two_moved {w : ι} (apart : w ≠ t) (member : t ∈ B) (member' : w ∈ B) (others : ∀ u, u ≠ t → u ≠ w → f' u = f u)
    (less : f' t + f' w < f t + f w) : ∑ u ∈ B, f' u < ∑ u ∈ B, f u := by
  have first : ∑ u ∈ B, Function.update f t (f' t) u + f t = ∑ u ∈ B, f u + Function.update f t (f' t) t :=
    sum_changed _ _ member fun u other => Function.update_of_ne other ..
  have second : ∑ u ∈ B, f' u + Function.update f t (f' t) w = ∑ u ∈ B, Function.update f t (f' t) u + f' w := by
    apply sum_changed _ _ member'
    intro u other
    by_cases mine : u = t
    · rw [mine,Function.update_self]
    · rw [Function.update_of_ne mine,others u mine other]
  rw [Function.update_self] at first
  rw [Function.update_of_ne apart] at second
  omega

omit [DecidableEq ι] in
theorem sum_kept (same : ∀ u, f' u = f u) : ∑ u ∈ B, f' u = ∑ u ∈ B, f u := Finset.sum_congr rfl fun u _ => same u

theorem sum_kept_but (f f' : ι → Nat) (others : ∀ u, u ≠ t → f' u = f u) (same : f' t = f t) : ∑ u ∈ B, f' u = ∑ u ∈ B, f u := by
  refine sum_kept fun u => ?_
  by_cases mine : u = t
  · rw [mine,same]
  · exact others u mine

end

/-- The work that is left, of all together and of each actor, and the tries between its steps. -/
def left {ι : Type*} (B : Finset ι) (shared : Nat) (share tries : ι → Nat) : Nat ×ₗ Nat :=
  toLex (shared + ∑ u ∈ B, share u,∑ u ∈ B, tries u)

section
variable {ι : Type*} [DecidableEq ι] {B : Finset ι} {shared shared' : Nat} {share share' tries tries' : ι → Nat} {t : ι}

theorem left_works (member : t ∈ B) (others : ∀ u, u ≠ t → share' u = share u)
    (less : shared' + share' t < shared + share t) : left B shared' share' tries' < left B shared share tries := by
  rw [left,left,Prod.Lex.toLex_lt_toLex]
  exact .inl (sum_moved shared shared' member others less)

theorem left_works_for {w : ι} (apart : w ≠ t) (member : t ∈ B) (member' : w ∈ B)
    (others : ∀ u, u ≠ t → u ≠ w → share' u = share u) (less : share' t + share' w < share t + share w) :
    left B shared share' tries' < left B shared share tries := by
  rw [left,left,Prod.Lex.toLex_lt_toLex]
  refine .inl ?_
  have sum := sum_two_moved apart member member' others less
  omega

theorem left_tries (member : t ∈ B) (work : shared' = shared) (shares : ∀ u, share' u = share u)
    (others : ∀ u, u ≠ t → tries' u = tries u) (less : tries' t < tries t) :
    left B shared' share' tries' < left B shared share tries := by
  rw [left,left,Prod.Lex.toLex_lt_toLex]
  refine .inr ⟨?_,?_⟩
  · rw [work,sum_kept shares]
  · have sum := sum_moved 0 0 member others (by omega)
    simpa using sum

end

/-- What is left of the calls of all actors: the steps of each at the place where it is, the
wake-ups that are owed, and the tries, which depend on what the actors share. -/
def callsLeft {ι Pc Shared : Type*} (effort : Pc → Nat) (tries : Shared → Pc → Nat) (B : Finset ι) (x : Shared) (pc : ι → Pc)
    (owed : ι → Nat) : Nat ×ₗ Nat :=
  left B 0 (fun u => effort (pc u) + 2 * owed u) fun u => tries x (pc u)

section
variable {ι Pc Shared : Type*} [DecidableEq ι] {effort : Pc → Nat} {tries : Shared → Pc → Nat} {B : Finset ι} {x x' : Shared}
  {pc pc' : ι → Pc} {owed owed' : ι → Nat} {t : ι} {p q : Pc}

theorem callsLeft_step (member : t ∈ B) (before : pc t = q) (moved : pc' = Function.update pc t p) (others : ∀ u, u ≠ t → owed' u = owed u)
    (less : effort p + 2 * owed' t < effort q + 2 * owed t) :
    callsLeft effort tries B x' pc' owed' < callsLeft effort tries B x pc owed := by
  apply left_works member
  · intro u other
    rw [moved,Function.update_of_ne other,others u other]
  · simpa only [moved,Function.update_self,before,Nat.zero_add] using less

theorem callsLeft_alone (member : t ∈ B) (before : pc t = q) (moved : pc' = Function.update pc t p) (less : effort p < effort q) :
    callsLeft effort tries B x' pc' owed < callsLeft effort tries B x pc owed :=
  callsLeft_step member before moved (fun _ _ => rfl) (Nat.add_lt_add_right less _)

theorem callsLeft_try (member : t ∈ B) (before : pc t = q) (moved : pc' = Function.update pc t p) (same : effort p = effort q)
    (less : tries x p < tries x q) : callsLeft effort tries B x pc' owed < callsLeft effort tries B x pc owed := by
  apply left_tries member rfl
  · intro u
    by_cases mine : u = t
    · rw [moved,mine,Function.update_self,before,same]
    · rw [moved,Function.update_of_ne mine]
  · intro u other
    rw [moved,Function.update_of_ne other]
  · simpa only [moved,Function.update_self,before] using less

theorem callsLeft_wake {w : ι} (apart : w ≠ t) (member : t ∈ B) (member' : w ∈ B) (before : pc t = q)
    (moved : pc' = Function.update pc t p) (others : ∀ u, u ≠ w → owed' u = owed u) (wakes : owed' w < owed w)
    (less : effort p < effort q + 2) : callsLeft effort tries B x' pc' owed' < callsLeft effort tries B x pc owed := by
  apply left_works_for apart member member'
  · intro u other other'
    rw [moved,Function.update_of_ne other,others u other']
  · simp only [moved,Function.update_self,Function.update_of_ne apart,before,others t apart.symm]
    omega

end

namespace Machine
variable {State Action : Type*} (m : Machine State Action)

/-- A step by an action of one kind. -/
def Moves (ok : Action → Prop) (s t : State) : Prop := ∃ a, ok a ∧ m.step s a = some t

theorem reachable_of_moves {m : Machine State Action} {ok : Action → Prop} {s t : State}
    (moves : Relation.ReflTransGen (m.Moves ok) s t) (reachable : m.Reachable s) : m.Reachable t := by
  induction moves with
  | refl => exact reachable
  | tail _ moves ih =>
    obtain ⟨_,_,moved⟩ := moves
    exact .step ih trivial moved

theorem moves_of_run {m : Machine State Action} {ok : Action → Prop} {actions : List Action} {s t : State}
    (kinds : ∀ a ∈ actions, ok a) (ran : m.run s actions = some t) : Relation.ReflTransGen (m.Moves ok) s t := by
  induction actions generalizing s with
  | nil => exact Option.some.inj ran ▸ .refl
  | cons a rest ih =>
    obtain ⟨next,moved,ran⟩ := Option.bind_eq_some_iff.mp ran
    exact .head ⟨a,kinds a List.mem_cons_self,moved⟩ (ih (fun b later => kinds b (List.mem_cons_of_mem a later)) ran)

section
variable {ι : Type*}

/-- A step adds to a queue only while it holds fewer than `cap` elements. -/
def Fits (size : State → ι → Nat) (cap : Nat) (s : State) (a : Action) : Prop :=
  ∀ t ∈ m.step s a, ∀ i, size s i < size t i → size s i < cap

instance [Fintype ι] (size : State → ι → Nat) (cap : Nat) (s : State) (a : Action) : Decidable (m.Fits size cap s a) :=
  inferInstanceAs (Decidable (∀ t ∈ m.step s a, ∀ i, size s i < size t i → size s i < cap))

/-- The same transitions, where a step that adds to a full queue has to wait. -/
def bounded [Fintype ι] (size : State → ι → Nat) (cap : Nat) : Machine State Action := m.restrict (m.Fits size cap)

def Jammed (size : State → ι → Nat) (cap : Nat) (ok : Action → Prop) (s : State) : Prop :=
  ∃ a t i, ok a ∧ m.step s a = some t ∧ size s i < size t i ∧ cap ≤ size s i

variable {m : Machine State Action} {size : State → ι → Nat} {cap : Nat} {ok : Action → Prop} {s t : State}

theorem not_jammed (still : ∀ t, ¬ m.Moves ok s t) : ¬ m.Jammed size cap ok s := by
  rintro ⟨a,t,_,kind,moved,_⟩
  exact still t ⟨a,kind,moved⟩

variable [Fintype ι]

theorem moves_of_bounded (moves : (m.bounded size cap).Moves ok s t) : m.Moves ok s t := by
  obtain ⟨a,kind,moved⟩ := moves
  exact ⟨a,kind,(restrict_step.mp moved).2⟩

theorem bounded_ends (ends : Acc (Function.swap (m.Moves ok)) s) : Acc (Function.swap ((m.bounded size cap).Moves ok)) s :=
  Subrelation.accessible (fun moves => moves_of_bounded moves) ends

/-- If nothing can move some step waits for room, or there is none at all. -/
theorem bounded_stuck (stuck : ∀ t, ¬ (m.bounded size cap).Moves ok s t) : m.Jammed size cap ok s ∨ ∀ t, ¬ m.Moves ok s t := by
  by_cases jammed : m.Jammed size cap ok s
  · exact .inl jammed
  right
  rintro t ⟨a,kind,moved⟩
  refine stuck t ⟨a,kind,restrict_step.mpr ⟨?_,moved⟩⟩
  intro u moved' i more
  by_contra full
  exact jammed ⟨a,u,i,kind,moved',more,Nat.not_lt.mp full⟩

end

/-- What is left gets less with every step of one kind, as long as what goes with it is kept. -/
theorem ends_of_left {m : Machine State Action} {ok : Action → Prop} {Left : Type*} [LT Left] [WellFoundedLT Left]
    (inv : State → Left → Prop)
    (less : ∀ s t a l, inv s l → ok a → m.step s a = some t → ∃ l', inv t l' ∧ l' < l) (s : State) (l : Left) (before : inv s l) :
    Acc (Function.swap (m.Moves ok)) s := by
  induction l using WellFoundedLT.induction generalizing s with
  | ind l ih =>
    refine ⟨s,?_⟩
    rintro t ⟨a,kind,moved⟩
    obtain ⟨l',after,smaller⟩ := less s t a l before kind moved
    exact ih l' smaller t after

theorem finite_busy {ι : Type*} {m : Machine State Action} (busy : State → Set ι) (starts : ∀ s, m.start s → busy s = ∅)
    (moves : ∀ s t a, m.step s a = some t → ∃ i, busy t ⊆ insert i (busy s)) (s : State) (reachable : m.Reachable s) :
    (busy s).Finite := by
  induction reachable with
  | start fresh =>
    rw [starts _ fresh]
    exact Set.finite_empty
  | step _ _ moved ih =>
    obtain ⟨i,within⟩ := moves _ _ _ moved
    exact (ih.insert i).subset within

section
variable {ι Pc : Type*} [DecidableEq ι] {m : Machine State Action} {ok : Action → Prop}

/-- The calls of actors that are outside all calls at first come to an end. -/
theorem ends_of_calls {Left : Type*} [LT Left] [WellFoundedLT Left] (pc : State → ι → Pc) (idle : Pc) (inv : Finset ι → State → Left → Prop)
    (starts : ∀ s, m.start s → ∀ t, pc s t = idle)
    (moves : ∀ s s' a, m.step s a = some s' → ∃ t p, pc s' = Function.update (pc s) t p ∧ (ok a → pc s t ≠ idle))
    (less : ∀ B s s' a l, inv B s l → (∀ u, pc s u ≠ idle → u ∈ B) → ok a → m.step s a = some s' → ∃ l', inv B s' l' ∧ l' < l)
    (s : State) (reachable : m.Reachable s) (before : ∀ B, ∃ l, inv B s l) : Acc (Function.swap (m.Moves ok)) s := by
  have busy_moved : ∀ {s s' t p}, pc s' = Function.update (pc s) t p → ∀ u, pc s' u ≠ idle → u = t ∨ pc s u ≠ idle := by
    intro s s' t p moved u busy
    by_cases same : u = t
    · exact .inl same
    · rw [moved,Function.update_of_ne same] at busy
      exact .inr busy
  have finite : { t | pc s t ≠ idle }.Finite := by
    apply finite_busy (fun s => { t | pc s t ≠ idle }) _ _ s reachable
    · intro s fresh
      ext t
      simp [starts s fresh t]
    · intro s s' a moved
      obtain ⟨t,p,moved,_⟩ := moves s s' a moved
      exact ⟨t,busy_moved moved⟩
  obtain ⟨B,same⟩ := finite.exists_finset_coe
  obtain ⟨l,holds⟩ := before B
  apply ends_of_left (fun s l => inv B s l ∧ ∀ u, pc s u ≠ idle → u ∈ B) _ s l ⟨holds,fun u busy => same.ge busy⟩
  intro s s' a l before kind moved
  obtain ⟨holds,inside⟩ := before
  obtain ⟨l',after,smaller⟩ := less B s s' a l holds inside kind moved
  refine ⟨l',⟨after,fun u busy => ?_⟩,smaller⟩
  obtain ⟨t,p,moved,awake⟩ := moves s s' a moved
  rcases busy_moved moved u busy with rfl | busy
  · exact inside u (awake kind)
  · exact inside u busy

end

end Machine
end TinyCoro.Library
