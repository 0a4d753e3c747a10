import Mathlib.Data.Set.Card.Arithmetic

/-! A counter that follows the size of a set of which one member comes or goes. -/
namespace TinyCoro.Library

/-- A member and the counter before and after a step. -/
inductive Moves (before after : Prop) (count count' : Int) : Prop
  | stays (same : after ↔ before) (counts : count' = count)
  | joins (outside : ¬ before) (member : after) (counts : count' = count + 1)
  | leaves (member : before) (outside : ¬ after) (counts : count' = count - 1)

theorem Moves.shift {before after before' after' : Prop} {count count' total total' : Int}
    (moves : Moves before after count count') (same : before' ↔ before) (same' : after' ↔ after)
    (follows : total' = total + (count' - count)) : Moves before' after' total total' := by
  cases moves with
  | stays member counts => exact .stays (by rw [same,same',member]) (by omega)
  | joins outside member counts => exact .joins (by rwa [same]) (by rwa [same']) (by omega)
  | leaves member outside counts => exact .leaves (by rwa [same]) (by rwa [same']) (by omega)

/-- Where a party is registered before and after a step, and the counters of all places. -/
inductive Tracks {κ : Type*} [DecidableEq κ] : Option κ → Option κ → (κ → Int) → (κ → Int) → Prop
  | stays (at' : Option κ) (counts : κ → Int) : Tracks at' at' counts counts
  | joins (k : κ) (counts : κ → Int) : Tracks none (some k) counts (Function.update counts k (counts k + 1))
  | leaves (k : κ) (counts : κ → Int) : Tracks (some k) none counts (Function.update counts k (counts k - 1))

theorem Tracks.moves {κ : Type*} [DecidableEq κ] {before after : Option κ} {counts counts' : κ → Int}
    (tracks : Tracks before after counts counts') (l : κ) :
    Moves (before = some l) (after = some l) (counts l) (counts' l) := by
  cases tracks with
  | stays => exact .stays .rfl rfl
  | joins k =>
    by_cases here : l = k
    · subst here
      exact .joins (by simp) rfl (by simp)
    · exact .stays (by simp [Ne.symm here]) (by simp [here])
  | leaves k =>
    by_cases here : l = k
    · subst here
      exact .leaves rfl (by simp) (by simp)
    · exact .stays (by simp [Ne.symm here]) (by simp [here])

variable {α : Type*} {s s' : Set α} {count count' : Int}

def Sized (s : Set α) (count : Int) : Prop := s.Finite ∧ count = s.ncard

theorem Sized.nonneg (sized : Sized s count) : 0 ≤ count := by
  rw [sized.2]
  exact Int.natCast_nonneg _

theorem Sized.empty (sized : Sized s count) (zero : count = 0) : s = ∅ := by
  obtain ⟨finite,same⟩ := sized
  have none : s.ncard = 0 := by omega
  exact (Set.ncard_eq_zero finite).mp none

theorem Sized.subset (sized : Sized s count) {t : Set α} (within : t ⊆ s) : t.Finite ∧ (t.ncard : Int) ≤ count := by
  obtain ⟨finite,same⟩ := sized
  refine ⟨finite.subset within,?_⟩
  rw [same]
  exact Int.ofNat_le.mpr (Set.ncard_le_ncard within finite)

theorem Sized.moves (sized : Sized s count) (a : α) (others : ∀ b, b ≠ a → (b ∈ s' ↔ b ∈ s))
    (moves : Moves (a ∈ s) (a ∈ s') count count') : Sized s' count' := by
  obtain ⟨finite,same⟩ := sized
  cases moves with
  | stays member counts =>
    have sets : s' = s := by
      ext b
      by_cases here : b = a
      · subst here
        exact member
      · exact others b here
    exact ⟨sets ▸ finite,by rw [sets,counts,same]⟩
  | joins outside member counts =>
    have sets : s' = insert a s := by
      ext b
      by_cases here : b = a
      · subst here
        simp [member]
      · simp [others b here,here]
    have size := Set.ncard_insert_of_notMem outside finite
    exact ⟨sets ▸ finite.insert a,by rw [sets,size,counts,same]; push_cast; rfl⟩
  | leaves member outside counts =>
    have sets : s' = s \ {a} := by
      ext b
      by_cases here : b = a
      · subst here
        simp [outside]
      · simp [others b here,here]
    have size := Set.ncard_sdiff_singleton_add_one member finite
    exact ⟨sets ▸ finite.sdiff,by rw [sets,counts,same]; omega⟩

/-- The parties that are somewhere, counted place by place. -/
theorem Sized.places {κ : Type*} [Fintype κ] {place : α → Option κ} {counts : κ → Int}
    (sized : ∀ k, Sized {a | place a = some k} (counts k)) : Sized {a | (place a).isSome} (∑ k, counts k) := by
  have union : {a | (place a).isSome} = ⋃ k, {a | place a = some k} := by
    ext a
    simp [Option.isSome_iff_exists]
  have apart : Pairwise (Function.onFun Disjoint fun k => {a | place a = some k}) := by
    intro k l other
    apply Set.disjoint_left.mpr
    intro a here there
    exact other (Option.some.inj (here.symm.trans there))
  rw [union]
  refine ⟨Set.finite_iUnion fun k => (sized k).1,?_⟩
  rw [Set.ncard_iUnion_of_finite (fun k => (sized k).1) apart,finsum_eq_sum_of_fintype,Nat.cast_sum]
  exact Finset.sum_congr rfl fun k _ => (sized k).2

theorem sum_ncard [Fintype α] (p : α → Prop) [DecidablePred p] :
    ∑ a, (if p a then 1 else 0 : Int) = {a | p a}.ncard := by
  rw [Finset.sum_boole,← Set.ncard_coe_finset]
  simp

end TinyCoro.Library
