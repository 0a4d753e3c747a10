import Mathlib.Logic.Function.Basic
import Mathlib.Data.List.Nodup

/-! Intrusive singly linked lists: a pointer represents a list when following the
`next` field of its nodes visits exactly that list and ends at the null pointer. -/
namespace TinyCoro.Library

variable {Addr : Type*}

def Chain (next : Addr → Option Addr) : Option Addr → List Addr → Prop
  | p, [] => p = none
  | p, a::rest => p = some a ∧ Chain next (next a) rest

namespace Chain
variable {next next' : Addr → Option Addr} {p : Option Addr} {l l' : List Addr}

@[simp] theorem nil_iff : Chain next p [] ↔ p = none := Iff.rfl

@[simp] theorem cons_iff {a : Addr} : Chain next p (a::l) ↔ p = some a ∧ Chain next (next a) l := Iff.rfl

@[simp] theorem none_iff : Chain next none l ↔ l = [] := by
  cases l <;> simp [Chain]

theorem some_iff {a : Addr} : Chain next (some a) l ↔ ∃ rest, l = a::rest ∧ Chain next (next a) rest := by
  cases l with
  | nil => simp
  | cons b rest =>
    simp only [cons_iff,Option.some.injEq,List.cons.injEq]
    constructor
    · rintro ⟨rfl,tail⟩
      exact ⟨rest,⟨rfl,rfl⟩,tail⟩
    · rintro ⟨_,⟨rfl,rfl⟩,tail⟩
      exact ⟨rfl,tail⟩

theorem congr (same : ∀ a ∈ l, next a = next' a) : Chain next p l ↔ Chain next' p l := by
  induction l generalizing p with
  | nil => simp
  | cons a rest ih =>
    have head := same a (by simp)
    have tail := ih (p := next' a) fun b member => same b (by simp [member])
    simp only [cons_iff,head,tail]

theorem update_iff [DecidableEq Addr] {a : Addr} {q : Option Addr} (absent : a ∉ l) :
    Chain (Function.update next a q) p l ↔ Chain next p l :=
  congr fun b member => Function.update_of_ne (by rintro rfl; exact absent member) ..

theorem unique (first : Chain next p l) (second : Chain next p l') : l = l' := by
  induction l generalizing p l' with
  | nil => rw [nil_iff] at first; subst first; exact (none_iff.mp second).symm
  | cons a rest ih =>
    obtain ⟨rfl,tail⟩ := first
    obtain ⟨rest',rfl,tail'⟩ := some_iff.mp second
    rw [ih tail tail']

theorem suffix {a : Addr} {before after : List Addr} (chain : Chain next p (before++a::after)) :
    Chain next (some a) (a::after) := by
  induction before generalizing p with
  | nil => exact ⟨rfl,chain.2⟩
  | cons b rest ih => exact ih chain.2

/-- A list that ends never visits a node twice. -/
theorem nodup (chain : Chain next p l) : l.Nodup := by
  induction l generalizing p with
  | nil => exact List.nodup_nil
  | cons a rest ih =>
    refine List.nodup_cons.mpr ⟨?_,ih chain.2⟩
    intro member
    obtain ⟨before,after,rfl⟩ := List.append_of_mem member
    have whole : Chain next (some a) (a::(before++a::after)) := ⟨rfl,chain.2⟩
    have same := congrArg List.length (whole.unique (suffix chain.2))
    simp at same
    omega

theorem last {a : Addr} (chain : Chain next p l) (ends : l.getLast? = some a) : next a = none := by
  obtain ⟨before,rfl⟩ := List.getLast?_eq_some_iff.mp ends
  exact nil_iff.mp (suffix chain).2

theorem append_single [DecidableEq Addr] {a b : Addr} {before : List Addr}
    (chain : Chain next p (before++[b])) (absent : a ∉ before++[b]) (ends : next a = none) :
    Chain (Function.update next b (some a)) p (before++[b]++[a]) := by
  have distinct := chain.nodup
  induction before generalizing p with
  | nil =>
    have other : a ≠ b := by simpa using absent
    exact ⟨chain.1,by simp [other,ends]⟩
  | cons c rest ih =>
    have other : c ≠ b := fun same => by simp [same] at distinct
    refine ⟨chain.1,?_⟩
    rw [Function.update_of_ne other]
    exact ih chain.2 (fun member => absent (List.mem_cons_of_mem _ member)) chain.2.nodup

end Chain
end TinyCoro.Library
