import Mathlib.Logic.Function.Basic

/-! Owners of which each holds at most one item and no two the same one. -/
namespace TinyCoro.Library

variable {Owner Item : Type*}

def UniqueOwner (held : Owner → Option Item) : Prop := ∀ o o' x, held o = some x → held o' = some x → o = o'

namespace UniqueOwner
variable [DecidableEq Owner] {held : Owner → Option Item} (unique : UniqueOwner held)
include unique

omit [DecidableEq Owner] in
theorem weaken {held' : Owner → Option Item} (less : ∀ o x, held' o = some x → held o = some x) : UniqueOwner held' :=
  fun o o' x first second => unique o o' x (less o x first) (less o' x second)

theorem drop (o : Owner) : UniqueOwner (Function.update held o none) := by
  apply unique.weaken
  intro o' x holds
  by_cases same : o' = o
  · subst same
    rw [Function.update_self] at holds
    contradiction
  · rwa [Function.update_of_ne same] at holds

theorem take {x : Item} (o : Owner) (nobody : ∀ o', held o' ≠ some x) : UniqueOwner (Function.update held o (some x)) := by
  have only : ∀ o' y, Function.update held o (some x) o' = some y → o' = o ∧ y = x ∨ o' ≠ o ∧ held o' = some y := by
    intro o' y holds
    by_cases same : o' = o
    · subst same
      rw [Function.update_self] at holds
      exact .inl ⟨rfl,(Option.some.inj holds).symm⟩
    · rw [Function.update_of_ne same] at holds
      exact .inr ⟨same,holds⟩
  intro p q y first second
  rcases only p y first with ⟨rfl,rfl⟩ | ⟨_,holds⟩
  · rcases only q y second with ⟨rfl,_⟩ | ⟨_,holds⟩
    · rfl
    · exact absurd holds (nobody q)
  · rcases only q y second with ⟨rfl,rfl⟩ | ⟨_,holds'⟩
    · exact absurd holds (nobody p)
    · exact unique p q y holds holds'

theorem pass (o o' : Owner) : UniqueOwner (Function.update (Function.update held o none) o' (held o)) := by
  cases holds : held o with
  | none => exact (unique.drop o).drop o'
  | some x =>
    apply (unique.drop o).take o'
    intro p holds'
    by_cases same : p = o
    · subst same
      rw [Function.update_self] at holds'
      contradiction
    · rw [Function.update_of_ne same] at holds'
      exact same (unique p o x holds' holds)

end UniqueOwner
end TinyCoro.Library
