import Mathlib.Data.List.Nodup
import Mathlib.Logic.Function.Basic

/-! Places of a fixed set that are leased out from a free queue: every place is
free or with one holder. -/
namespace TinyCoro.Library

structure Lease (Place Holder : Type*) where
  free : List Place
  held : Holder → Option Place

namespace Lease
variable {Place Holder : Type*} {all : Set Place} {l : Lease Place Holder} {h h' : Holder} {i : Place}

/-- Nothing outside the places is free or held. -/
structure Inside (all : Set Place) (l : Lease Place Holder) : Prop where
  free : ∀ i ∈ l.free, i ∈ all
  held : ∀ h i, l.held h = some i → i ∈ all

structure Exact (all : Set Place) (l : Lease Place Holder) : Prop where
  inside : l.Inside all
  nodup : l.free.Nodup
  complete : ∀ i ∈ all, i ∈ l.free ∨ ∃ h, l.held h = some i
  apart : ∀ h i, l.held h = some i → i ∉ l.free
  single : ∀ h h' i, l.held h = some i → l.held h' = some i → h = h'

theorem exact_iff [DecidableEq Place] (inside : l.Inside all) :
    l.Exact all ↔ ∀ i ∈ all, (l.free.count i = 1 ∧ ∀ h, l.held h ≠ some i) ∨
      (l.free.count i = 0 ∧ ∃! h, l.held h = some i) := by
  constructor
  · intro exact i member
    rcases exact.complete i member with free | ⟨h,holds⟩
    · left
      refine ⟨List.count_eq_one_of_mem exact.nodup free,fun h holds => ?_⟩
      exact exact.apart h i holds free
    · right
      refine ⟨List.count_eq_zero.mpr (exact.apart h i holds),h,holds,fun h' holds' => ?_⟩
      exact exact.single h' h i holds' holds
  · intro each
    refine ⟨inside,?_,?_,?_,?_⟩
    · rw [List.nodup_iff_count_le_one]
      intro i
      by_cases free : i ∈ l.free
      · rcases each i (inside.free i free) with ⟨once,_⟩ | ⟨never,_⟩ <;> omega
      · rw [List.count_eq_zero.mpr free]
        exact Nat.zero_le 1
    · intro i member
      rcases each i member with ⟨once,_⟩ | ⟨_,h,holds,_⟩
      · exact .inl (List.count_pos_iff.mp (by omega))
      · exact .inr ⟨h,holds⟩
    · intro h i holds
      rcases each i (inside.held h i holds) with ⟨_,nobody⟩ | ⟨never,_⟩
      · exact absurd holds (nobody h)
      · exact List.count_eq_zero.mp never
    · intro h h' i holds holds'
      rcases each i (inside.held h i holds) with ⟨_,nobody⟩ | ⟨_,unique⟩
      · exact absurd holds (nobody h)
      · exact unique.unique holds holds'

variable [DecidableEq Holder]

def take (l : Lease Place Holder) (h : Holder) : Lease Place Holder := ⟨l.free.tail,Function.update l.held h l.free.head?⟩

def giveBack (l : Lease Place Holder) (h : Holder) : Lease Place Holder :=
  ⟨l.free ++ (l.held h).toList,Function.update l.held h none⟩

/-- `h'` is told that it holds what `h` holds. -/
def duplicate (l : Lease Place Holder) (h h' : Holder) : Lease Place Holder :=
  ⟨l.free,Function.update l.held h' (l.held h)⟩

theorem take_held_of_ne {g : Holder} (other : g ≠ h) : (l.take h).held g = l.held g := Function.update_of_ne other _ _

theorem take_held_self : (l.take h).held h = l.free.head? := Function.update_self _ _ _

theorem giveBack_held_of_ne {g : Holder} (other : g ≠ h) : (l.giveBack h).held g = l.held g := Function.update_of_ne other _ _

theorem giveBack_held_self : (l.giveBack h).held h = none := Function.update_self _ _ _

theorem duplicate_held_of_ne {g : Holder} (other : g ≠ h') : (l.duplicate h h').held g = l.held g := Function.update_of_ne other _ _

theorem duplicate_held_self : (l.duplicate h h').held h' = l.held h := Function.update_self _ _ _

theorem Inside.take (inside : l.Inside all) (h : Holder) : (l.take h).Inside all := by
  refine ⟨fun i free => inside.free i (List.mem_of_mem_tail free),fun g i holds => ?_⟩
  by_cases same : g = h
  · subst same
    rw [take_held_self] at holds
    exact inside.free i (List.mem_of_head? holds)
  · rw [take_held_of_ne same] at holds
    exact inside.held g i holds

theorem Inside.giveBack (inside : l.Inside all) (h : Holder) : (l.giveBack h).Inside all := by
  constructor
  · intro i free
    rcases List.mem_append.mp free with free | back
    · exact inside.free i free
    · exact inside.held h i (Option.mem_toList.mp back)
  · intro g i holds
    by_cases same : g = h
    · subst same
      rw [giveBack_held_self] at holds
      contradiction
    · rw [giveBack_held_of_ne same] at holds
      exact inside.held g i holds

theorem Inside.duplicate (inside : l.Inside all) (h h' : Holder) : (l.duplicate h h').Inside all := by
  refine ⟨inside.free,fun g i holds => ?_⟩
  by_cases same : g = h'
  · subst same
    rw [duplicate_held_self] at holds
    exact inside.held h i holds
  · rw [duplicate_held_of_ne same] at holds
    exact inside.held g i holds

theorem Exact.take (exact : l.Exact all) (empty : l.held h = none) : (l.take h).Exact all := by
  cases free : l.free with
  | nil =>
    have same : l.take h = l := by
      rw [Lease.take,free,List.head?_nil,← empty,Function.update_eq_self,List.tail_nil,← free]
    rwa [same]
  | cons i rest =>
    have nodup := exact.nodup
    rw [free,List.nodup_cons] at nodup
    have rest' : (l.take h).free = rest := by rw [Lease.take,free]; rfl
    have self : (l.take h).held h = some i := by rw [take_held_self,free]; rfl
    have others : ∀ g j, g ≠ h → (l.take h).held g = some j → j ≠ i ∧ j ∉ rest ∧ l.held g = some j := by
      intro g j other holds
      rw [take_held_of_ne other] at holds
      have apart := exact.apart g j holds
      rw [free,List.mem_cons,not_or] at apart
      exact ⟨apart.1,apart.2,holds⟩
    refine ⟨exact.inside.take h,?_,?_,?_,?_⟩
    · rw [rest']
      exact nodup.2
    · intro j member
      rw [rest']
      rcases exact.complete j member with free' | ⟨g,holds⟩
      · rw [free,List.mem_cons] at free'
        rcases free' with here | later
        · exact .inr ⟨h,here ▸ self⟩
        · exact .inl later
      · have other : g ≠ h := by
          intro same
          rw [same,empty] at holds
          contradiction
        exact .inr ⟨g,by rwa [take_held_of_ne other]⟩
    · intro g j holds
      rw [rest']
      by_cases same : g = h
      · rw [same,self,Option.some.injEq] at holds
        exact holds ▸ nodup.1
      · exact (others g j same holds).2.1
    · intro g g' j holds holds'
      by_cases same : g = h <;> by_cases same' : g' = h
      · rw [same,same']
      · rw [same,self,Option.some.injEq] at holds
        exact absurd holds.symm (others g' j same' holds').1
      · rw [same',self,Option.some.injEq] at holds'
        exact absurd holds'.symm (others g j same holds).1
      · exact exact.single g g' j (others g j same holds).2.2 (others g' j same' holds').2.2

theorem Exact.giveBack (exact : l.Exact all) (h : Holder) : (l.giveBack h).Exact all := by
  have others : ∀ g j, (l.giveBack h).held g = some j → g ≠ h ∧ l.held g = some j := by
    intro g j holds
    have other : g ≠ h := by
      intro same
      rw [same,giveBack_held_self] at holds
      contradiction
    exact ⟨other,by rwa [giveBack_held_of_ne other] at holds⟩
  refine ⟨exact.inside.giveBack h,?_,?_,?_,?_⟩
  · refine List.nodup_append'.mpr ⟨exact.nodup,Option.toList_nodup _,fun i free back => ?_⟩
    exact exact.apart h i (Option.mem_toList.mp back) free
  · intro i member
    rcases exact.complete i member with free | ⟨g,holds⟩
    · exact .inl (List.mem_append_left _ free)
    · by_cases same : g = h
      · exact .inl (List.mem_append_right _ (Option.mem_toList.mpr (same ▸ holds)))
      · exact .inr ⟨g,by rwa [giveBack_held_of_ne same]⟩
  · intro g i holds free
    obtain ⟨other,holds⟩ := others g i holds
    rcases List.mem_append.mp free with free | back
    · exact exact.apart g i holds free
    · exact other (exact.single g h i holds (Option.mem_toList.mp back))
  · intro g g' i holds holds'
    exact exact.single g g' i (others g i holds).2 (others g' i holds').2

/-- Telling another holder the same place is harmless only where there is none. -/
theorem Exact.duplicate_iff (exact : l.Exact all) (h h' : Holder) :
    (l.duplicate h h').Exact all ↔ h = h' ∨ (l.held h = none ∧ l.held h' = none) := by
  constructor
  · intro after
    by_cases same : h = h'
    · exact .inl same
    have kept : (l.duplicate h h').held h = l.held h := duplicate_held_of_ne same
    have told : (l.duplicate h h').held h' = l.held h := duplicate_held_self
    have none : l.held h = none := by
      rw [Option.eq_none_iff_forall_ne_some]
      intro i holds
      exact same (after.single h h' i (kept.trans holds) (told.trans holds))
    refine .inr ⟨none,?_⟩
    rw [Option.eq_none_iff_forall_ne_some]
    intro i holds
    -- the place `h'` held before is free or held by somebody else
    rcases after.complete i (exact.inside.held h' i holds) with free | ⟨g,holds'⟩
    · exact exact.apart h' i holds free
    · by_cases here : g = h'
      · rw [here,told,none] at holds'
        contradiction
      · have before : l.held g = some i := (duplicate_held_of_ne here).symm.trans holds'
        exact here (exact.single g h' i before holds)
  · intro harmless
    have same : l.duplicate h h' = l := by
      rcases harmless with rfl | ⟨none,none'⟩
      · rw [duplicate,Function.update_eq_self]
      · rw [duplicate,none,← none',Function.update_eq_self]
    rwa [same]

end Lease
end TinyCoro.Library
