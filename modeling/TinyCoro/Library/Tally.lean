import Mathlib.Algebra.BigOperators.Group.Finset.Basic
import Mathlib.Algebra.BigOperators.Pi
import Mathlib.Algebra.Order.BigOperators.Group.Finset
import Mathlib.Algebra.Order.Group.Defs
import Mathlib.Algebra.Order.Group.Int

/-! Families of which one member changes, and sums over them. -/
namespace TinyCoro.Library

theorem update_keeps {ι α β : Type*} [DecidableEq ι] (field : α → β) {f : ι → α} {i : ι} {v : α} (same : field v = field (f i))
    (j : ι) : field (Function.update f i v j) = field (f j) := by
  by_cases here : j = i
  · subst here
    rw [Function.update_self,same]
  · rw [Function.update_of_ne here]

theorem sum_changed {ι : Type*} [DecidableEq ι] {B : Finset ι} (f f' : ι → Nat) {t : ι} (member : t ∈ B)
    (others : ∀ u, u ≠ t → f' u = f u) : ∑ u ∈ B, f' u + f t = ∑ u ∈ B, f u + f' t := by
  have same : ∑ u ∈ B.erase t, f' u = ∑ u ∈ B.erase t, f u :=
    Finset.sum_congr rfl fun u there => others u (Finset.ne_of_mem_erase there)
  rw [← Finset.add_sum_erase B f' member,← Finset.add_sum_erase B f member,same]
  omega

variable {ι α : Type*} [Fintype ι] [DecidableEq ι]

theorem sum_update (weight : α → Nat) (f : ι → α) (i : ι) (v : α) :
    ∑ j, weight (Function.update f i v j) + weight (f i) = ∑ j, weight (f j) + weight v := by
  have changed := sum_changed (fun j => weight (f j)) (fun j => weight (Function.update f i v j)) (Finset.mem_univ i) fun j other => by
    rw [Function.update_of_ne other]
  rwa [Function.update_self] at changed

theorem sum_comp_update (weight : α → Int) (f : ι → α) (i : ι) (v : α) :
    ∑ j, weight (Function.update f i v j) = ∑ j, weight (f j) + (weight v - weight (f i)) := by
  have changed : ∀ j, weight (Function.update f i v j) = weight (f j) + if j = i then weight v - weight (f i) else 0 := by
    intro j
    by_cases same : j = i
    · subst same
      simp
    · simp [same]
  simp only [changed,Finset.sum_add_distrib,Finset.sum_ite_eq',Finset.mem_univ,if_true]

section
variable {κ : Type*} [Fintype κ] [DecidableEq κ] {f : ι → Option κ}

omit [DecidableEq ι] in
theorem sum_pointing (f : ι → Option κ) :
    ∑ i, (if (f i).isSome then 1 else 0 : Int) = ∑ k, ∑ i, if f i = some k then 1 else 0 := by
  rw [Finset.sum_comm]
  refine Finset.sum_congr rfl fun i _ => ?_
  cases here : f i with
  | none => simp
  | some k => simp

omit [DecidableEq ι] [Fintype κ] in
theorem sum_at_most_one (unique : ∀ i j k, f i = some k → f j = some k → i = j) {bound : κ → Int}
    (covers : ∀ i k, f i = some k → 1 ≤ bound k) (nonneg : ∀ k, 0 ≤ bound k) (k : κ) :
    ∑ i, (if f i = some k then 1 else 0 : Int) ≤ bound k := by
  by_cases hit : ∃ i, f i = some k
  · obtain ⟨i,here⟩ := hit
    rw [Finset.sum_eq_single i]
    · rw [if_pos here]
      exact covers i k here
    · intro j _ other
      exact if_neg fun same => other (unique j i k same here)
    · exact fun absent => absurd (Finset.mem_univ i) absent
  · rw [Finset.sum_eq_zero]
    · exact nonneg k
    · exact fun i _ => if_neg fun same => hit ⟨i,same⟩

omit [DecidableEq ι] in
/-- If distinct members point at distinct places and there are as many of them as
the places weigh, then every place that weighs something is pointed at. -/
theorem pointed_of_sum_le (unique : ∀ i j k, f i = some k → f j = some k → i = j) {bound : κ → Int}
    (covers : ∀ i k, f i = some k → 1 ≤ bound k) (nonneg : ∀ k, 0 ≤ bound k)
    (enough : ∑ k, bound k ≤ ∑ i, (if (f i).isSome then 1 else 0 : Int)) {k : κ} (weighs : 0 < bound k) :
    ∃ i, f i = some k := by
  by_contra missed
  have atMost := sum_at_most_one unique covers nonneg
  have none : ∑ i, (if f i = some k then 1 else 0 : Int) = 0 :=
    Finset.sum_eq_zero fun i _ => if_neg fun same => missed ⟨i,same⟩
  rw [sum_pointing] at enough
  have less : ∑ k, ∑ i, (if f i = some k then 1 else 0 : Int) < ∑ k, bound k :=
    Finset.sum_lt_sum (fun k _ => atMost k) ⟨k,Finset.mem_univ k,by rwa [none]⟩
  omega

end

end TinyCoro.Library
