import Mathlib.Data.Nat.ModEq
import Mathlib.Algebra.Order.Floor.Div

/-! Dealing in turn: the ticket numbers of a window with one residue, and the
items of a list whose positions have it. -/
namespace TinyCoro.Library.RoundRobin

/-- How many of the tickets `start, .., start + width - 1` go to `i` out of `n`. -/
def share (n i start width : Nat) : Nat := (List.range' start width).countP (· % n = i)

/-- The items of a list that go to `i`, in their order. -/
def dealt {α : Type*} (n i : Nat) (l : List α) : List α := (l.zipIdx.filter fun item => item.2 % n = i).map Prod.fst

variable {n i : Nat}

theorem share_succ (start width : Nat) :
    share n i start (width + 1) = share n i start width + if (start + width) % n = i then 1 else 0 := by
  rw [share,List.range'_1_concat,List.countP_append,List.countP_singleton,share]
  simp

theorem div_step (below : i < n) (x : Nat) :
    (x + 1 + (n - 1 - i)) / n = (x + (n - 1 - i)) / n + if x % n = i then 1 else 0 := by
  have reached : n ∣ x + (n - 1 - i) + 1 ↔ x % n = i := by
    have turn : x + (n - 1 - i) + 1 = x + n - i := by omega
    rw [turn,← Nat.modEq_iff_dvd' (by omega),Nat.ModEq,Nat.mod_eq_of_lt below,Nat.add_mod_right]
    exact eq_comm
  rw [Nat.add_right_comm,Nat.succ_div]
  simp only [reached]

theorem share_eq (below : i < n) (start width : Nat) :
    (start + (n - 1 - i)) / n + share n i start width = (start + width + (n - 1 - i)) / n := by
  induction width with
  | zero => rfl
  | succ width ih =>
    have step := div_step below (start + width)
    rw [share_succ,← Nat.add_assoc,ih,← Nat.add_assoc start width 1,step]

/-- Any window gives everyone the quotient or one more. -/
theorem share_fair (below : i < n) (start width : Nat) :
    share n i start width = width / n ∨ share n i start width = (width + n - 1) / n := by
  have positive : 0 < n := by omega
  have sum := share_eq below start width
  rw [Nat.add_right_comm,Nat.add_div (a := start + (n - 1 - i)) positive] at sum
  split at sum
  next extra =>
    refine .inr ?_
    have start' := Nat.mod_lt (start + (n - 1 - i)) positive
    have last : (n - 1) % n = n - 1 := Nat.mod_eq_of_lt (by omega)
    rw [Nat.add_sub_assoc positive,Nat.add_div (a := width) positive,Nat.div_eq_of_lt (by omega : n - 1 < n),last,if_pos (by omega)]
    omega
  next => exact .inl (by omega)

theorem share_even {k : Nat} (below : i < n) (below' : k < n) (start width : Nat) : share n i start width ≤ share n k start width + 1 := by
  have upper := share_fair below start width
  have lower := share_fair below' start width
  have ceiling : (width + n - 1) / n ≤ width / n + 1 := by
    rw [← Nat.add_div_right _ (by omega)]
    exact Nat.div_le_div_right (Nat.sub_le ..)
  have floor : width / n ≤ (width + n - 1) / n := Nat.div_le_div_right (by omega)
  omega

theorem share_zero (below : i < n) (width : Nat) : share n i 0 width = (width + (n - 1 - i)) / n := by
  have sum := share_eq below 0 width
  rw [Nat.zero_add,Nat.zero_add,Nat.div_eq_of_lt (by omega)] at sum
  omega

theorem share_next (positive : 0 < n) (width : Nat) : share n (width % n) 0 width = width / n := by
  have below := Nat.mod_lt width positive
  have rest : (width + (n - 1 - width % n)) / n = width / n := by
    have turn : width + (n - 1 - width % n) = n - 1 + n * (width / n) := by
      have := Nat.div_add_mod width n
      omega
    rw [turn,Nat.add_mul_div_left _ _ positive,Nat.div_eq_of_lt (by omega),Nat.zero_add]
  rw [share_zero below,rest]

section
variable {α : Type*} (l : List α) (a : α)

theorem dealt_concat : dealt n i (l ++ [a]) = dealt n i l ++ if l.length % n = i then [a] else [] := by
  rw [dealt,List.zipIdx_append,List.filter_append,List.map_append,dealt]
  by_cases turn : l.length % n = i <;> simp [turn]

theorem length_dealt : (dealt n i l).length = share n i 0 l.length := by
  induction l using List.reverseRecOn with
  | nil => rfl
  | append_singleton l a ih =>
    rw [dealt_concat,List.length_append,ih,List.length_append,List.length_singleton,share_succ,Nat.zero_add]
    split <;> rfl

end
end TinyCoro.Library.RoundRobin
