import Mathlib.Data.BitVec
import Mathlib.Algebra.BigOperators.Group.List.Basic

/-! The timer. Its chained additions go into two 64-bit fields that the
constructor leaves as they are in memory; nothing is carried from one to the
other before `co_await` hands them to the kernel. -/
namespace TinyCoro.Time

structure KernelTimespec where
  tvSec : BitVec 64
  tvNsec : BitVec 64
  deriving DecidableEq

structure Timer where
  ts : KernelTimespec
  flag : BitVec 32

/-- The arguments of `io_uring_prep_timeout`. -/
structure TimerAwaiter where
  ts : KernelTimespec
  count : Nat
  flags : Nat

namespace Timer

/-- The constructor sets `m_flag` only; `storage` is what the memory of `m_ts` held. -/
def new (storage : KernelTimespec) (flag : BitVec 32) : Timer := ⟨storage,flag⟩

-- `long long += uint64_t` is computed in `uint64_t`

def addSeconds (t : Timer) (seconds : BitVec 64) : Timer :=
  { t with ts.tvSec := t.ts.tvSec + seconds }

def addMseconds (t : Timer) (mseconds : BitVec 64) : Timer :=
  { t with ts.tvNsec := t.ts.tvNsec + 1000000 * mseconds }

def addUseconds (t : Timer) (useconds : BitVec 64) : Timer :=
  { t with ts.tvNsec := t.ts.tvNsec + 1000 * useconds }

def addNseconds (t : Timer) (nseconds : BitVec 64) : Timer :=
  { t with ts.tvNsec := t.ts.tvNsec + nseconds }

def coAwait (t : Timer) : TimerAwaiter := ⟨t.ts,1,0⟩

end Timer

inductive Call
  | seconds (amount : BitVec 64)
  | mseconds (amount : BitVec 64)
  | useconds (amount : BitVec 64)
  | nseconds (amount : BitVec 64)

namespace Call

def apply (t : Timer) : Call → Timer
  | .seconds amount => t.addSeconds amount
  | .mseconds amount => t.addMseconds amount
  | .useconds amount => t.addUseconds amount
  | .nseconds amount => t.addNseconds amount

def whole : Call → Nat
  | .seconds amount => amount.toNat
  | _ => 0

def sub : Call → Nat
  | .seconds _ => 0
  | .mseconds amount => 1000000 * amount.toNat
  | .useconds amount => 1000 * amount.toNat
  | .nseconds amount => amount.toNat

def nanoseconds (c : Call) : Nat := 10^9 * c.whole + c.sub

end Call

/-- The chain on a newly constructed timer, as `co_await` hands it to the kernel. -/
def handed (storage : KernelTimespec) (flag : BitVec 32) (calls : List Call) : KernelTimespec :=
  (calls.foldl Call.apply (Timer.new storage flag)).coAwait.ts

def total (calls : List Call) : Nat := (calls.map Call.nanoseconds).sum

/-- What the calls for less than seconds add up to. -/
def subTotal (calls : List Call) : Nat := (calls.map Call.sub).sum

def wholeTotal (calls : List Call) : Nat := (calls.map Call.whole).sum

/-- The fields are read as signed and normalised. -/
def Represents (ts : KernelTimespec) (n : Nat) : Prop :=
  ts.tvSec.toInt * 10^9 + ts.tvNsec.toInt = n ∧ 0 ≤ ts.tvNsec.toInt ∧ ts.tvNsec.toInt < 10^9

private theorem total_eq (calls : List Call) : total calls = 10^9 * wholeTotal calls + subTotal calls := by
  induction calls with
  | nil => rfl
  | cons c calls ih =>
    simp only [total,wholeTotal,subTotal,List.map_cons,List.sum_cons,Call.nanoseconds] at ih ⊢
    rw [ih]
    omega

private theorem apply_ts (t : Timer) (c : Call) : (c.apply t).ts =
    ⟨t.ts.tvSec + BitVec.ofNat 64 c.whole,t.ts.tvNsec + BitVec.ofNat 64 c.sub⟩ := by
  cases c <;> simp [Call.apply,Call.whole,Call.sub,Timer.addSeconds,Timer.addMseconds,Timer.addUseconds,Timer.addNseconds,
    BitVec.ofNat_mul]

private theorem handed_eq (storage : KernelTimespec) (flag : BitVec 32) (calls : List Call) : handed storage flag calls =
    ⟨storage.tvSec + BitVec.ofNat 64 (wholeTotal calls),storage.tvNsec + BitVec.ofNat 64 (subTotal calls)⟩ := by
  have chain : ∀ t : Timer, (calls.foldl Call.apply t).ts =
      ⟨t.ts.tvSec + BitVec.ofNat 64 (wholeTotal calls),t.ts.tvNsec + BitVec.ofNat 64 (subTotal calls)⟩ := by
    induction calls with
    | nil => intro t; simp [wholeTotal,subTotal]
    | cons c calls ih =>
      intro t
      rw [List.foldl_cons,ih,apply_ts]
      simp [wholeTotal,subTotal,BitVec.ofNat_add,BitVec.add_assoc]
  exact chain _

/-- A normalised pair is the quotient and the remainder. -/
theorem represents_iff (ts : KernelTimespec) (n : Nat) :
    Represents ts n ↔ ts.tvSec.toInt = (n / 10^9 : Nat) ∧ ts.tvNsec.toInt = (n % 10^9 : Nat) := by
  unfold Represents
  omega

private theorem toInt_eq_iff (x : BitVec 64) {n : Nat} (small : n < 2^63) : x.toInt = n ↔ x = BitVec.ofNat 64 n := by
  have value : (BitVec.ofNat 64 n).toInt = n := by
    rw [BitVec.toInt_eq_toNat_bmod,BitVec.toNat_ofNat,Nat.mod_eq_of_lt (by omega)]
    exact Int.bmod_eq_of_le (by omega) (by omega)
  rw [← value,BitVec.toInt_inj]

/-- What the memory of `m_ts` must have held for the kernel to be given the sum. -/
def HoldsCarry (storage : KernelTimespec) (calls : List Call) : Prop :=
  storage.tvSec = BitVec.ofNat 64 (subTotal calls / 10^9) ∧
    storage.tvNsec = -BitVec.ofNat 64 (10^9 * (subTotal calls / 10^9))

instance (storage : KernelTimespec) (calls : List Call) : Decidable (HoldsCarry storage calls) :=
  inferInstanceAs (Decidable (_ ∧ _))

/-- The kernel is given the sum if and only if the uninitialised fields made up for the missing carry. -/
theorem adds_up_iff (storage : KernelTimespec) (flag : BitVec 32) (calls : List Call) (fits : total calls < 2^63 * 10^9) :
    Represents (handed storage flag calls) (total calls) ↔ HoldsCarry storage calls := by
  have sum := total_eq calls
  have quotient : total calls / 10^9 = wholeTotal calls + subTotal calls / 10^9 := by omega
  have remainder : total calls % 10^9 = subTotal calls % 10^9 := by omega
  have seconds : storage.tvSec + BitVec.ofNat 64 (wholeTotal calls) = BitVec.ofNat 64 (total calls / 10^9) ↔
      storage.tvSec = BitVec.ofNat 64 (subTotal calls / 10^9) := by
    rw [quotient,Nat.add_comm (wholeTotal calls),BitVec.ofNat_add,add_left_inj]
  have nanoseconds : storage.tvNsec + BitVec.ofNat 64 (subTotal calls) = BitVec.ofNat 64 (total calls % 10^9) ↔
      storage.tvNsec = -BitVec.ofNat 64 (10^9 * (subTotal calls / 10^9)) := by
    have split : BitVec.ofNat 64 (subTotal calls) =
        BitVec.ofNat 64 (10^9 * (subTotal calls / 10^9)) + BitVec.ofNat 64 (subTotal calls % 10^9) := by
      rw [← BitVec.ofNat_add,Nat.div_add_mod]
    rw [remainder,split,← add_assoc,add_eq_right,eq_neg_iff_add_eq_zero]
  rw [represents_iff,toInt_eq_iff _ (by omega),toInt_eq_iff _ (by omega),handed_eq]
  exact and_congr seconds nanoseconds

/-- Zeroed memory serves as long as the calls for less than seconds stay below one second. -/
theorem holdsCarry_zero_iff (calls : List Call) (fits : total calls < 2^63 * 10^9) :
    HoldsCarry ⟨0,0⟩ calls ↔ subTotal calls < 10^9 := by
  have sum := total_eq calls
  have small : subTotal calls / 10^9 < 2^63 := by omega
  constructor
  · rintro ⟨seconds,_⟩
    have zero := (toInt_eq_iff 0 small).mpr seconds
    have none : (0 : BitVec 64).toInt = 0 := by decide
    omega
  · intro below
    have none : subTotal calls / 10^9 = 0 := Nat.div_eq_of_lt below
    rw [HoldsCarry,none]
    decide

/-- Three and a half seconds, on memory that happens to be zero. -/
theorem three_and_a_half : Represents (handed ⟨0,0⟩ 0 [.seconds 3,.mseconds 500]) 3500000000 :=
  (adds_up_iff ⟨0,0⟩ 0 [.seconds 3,.mseconds 500] (by decide)).mpr (by decide)

/-- One and a half seconds in milliseconds leave `tv_nsec` too large, and memory
that is not zero adds to any chain. -/
theorem does_not_add_up : ¬ ∀ (storage : KernelTimespec) (flag : BitVec 32) (calls : List Call),
    total calls < 2^63 * 10^9 → Represents (handed storage flag calls) (total calls) := by
  intro claimed
  have carry := (claimed ⟨0,0⟩ 0 [.mseconds 1500] (by decide)).2.2
  exact absurd carry (by decide)

end TinyCoro.Time
