import TinyCoro.Task.Container
import Mathlib.Data.List.Basic

/-! The container for POD types against the general one, with the memory of the
union and the references to exceptions. The two are run on the same sequence of
calls, and compared in what the calls answer and in what becomes of the references. -/
namespace TinyCoro.Task

/-- `setException` is called while `e` is the current exception. -/
inductive Call (V E : Type)
  | returnValue (v : V)
  | setException (e : E)
  | result
  | valueReady
  | valueException
  | valueUnset

inductive Answer (V E : Type)
  | result (r : Result V E)
  | query (b : Bool)

/-- What happens to a reference that an `exception_ptr` counts; `releasedUnstored`
is the release of one that the memory was only taken to hold. -/
inductive RefEvent (E : Type)
  | stored (e : E)
  | released (e : E)
  | releasedUnstored

def RefEvent.storedRef {E : Type} : RefEvent E → Option E
  | .stored e => some e
  | _ => none

def RefEvent.releasedRef {E : Type} : RefEvent E → Option E
  | .released e => some e
  | _ => none

structure Observation (V E : Type) where
  answers : List (Answer V E)
  events : List (RefEvent E)

/-- A container: its functions, with the references they store and release. -/
structure Implementation (V E : Type) where
  State : Type
  returnValue : State → V → State × List (RefEvent E)
  setException : State → E → State × List (RefEvent E)
  result : State → Result V E
  valueReady : State → Bool
  valueException : State → Bool
  valueUnset : State → Bool
  destroy : State → List (RefEvent E)

section
variable {V E : Type}

def Observation.answering (o : Observation V E) (a : Answer V E) : Observation V E := { o with answers := a::o.answers }

def Observation.after (o : Observation V E) (events : List (RefEvent E)) : Observation V E :=
  { o with events := events ++ o.events }

/-- The calls and then the destructor, unless `std::terminate` comes first. -/
def Implementation.run (c : Implementation V E) (s : c.State) : List (Call V E) → Observation V E
  | [] => ⟨[],c.destroy s⟩
  | .returnValue v::calls => (c.run (c.returnValue s v).1 calls).after (c.returnValue s v).2
  | .setException e::calls => (c.run (c.setException s e).1 calls).after (c.setException s e).2
  | .result::calls =>
    match c.result s with
    | .terminate => ⟨[.result .terminate],[]⟩
    | r => (c.run s calls).answering (.result r)
  | .valueReady::calls => (c.run s calls).answering (.query (c.valueReady s))
  | .valueException::calls => (c.run s calls).answering (.query (c.valueException s))
  | .valueUnset::calls => (c.run s calls).answering (.query (c.valueUnset s))

namespace Variant

def held : Variant V E → List E
  | .exception e => [e]
  | _ => []

def valueReady : Variant V E → Bool
  | .value _ => true
  | _ => false

def valueException : Variant V E → Bool
  | .exception _ => true
  | _ => false

/-- `emplace` and the destructor destroy the old alternative; `set_exception`
constructs a new variant in its place without doing so. -/
def implementation (neverSet : E) : Implementation V E where
  State := Variant V E
  returnValue s v := (s.returnValue v,s.held.map .released)
  setException s e := (s.setException e,[.stored e])
  result := Variant.result neverSet
  valueReady := valueReady
  valueException := valueException
  valueUnset s := !s.valueReady && !s.valueException
  destroy s := s.held.map .released

end Variant

/-- The bytes of the union that an `exception_ptr` occupies: what assigning a
value makes of them, and which of them read as a null pointer. -/
structure UnionMemory (V E : Type) where
  Bytes : Type
  store : V → Bytes → Bytes
  address : E → Bytes
  isNull : Bytes → Bool

namespace PodContainer

def held : PodContainer V E → List E
  | .exception e => [e]
  | _ => []

def valueReady : PodContainer V E → Bool
  | .value _ => true
  | _ => false

def valueException : PodContainer V E → Bool
  | .exception _ => true
  | _ => false

def valueUnset : PodContainer V E → Bool
  | .none => true
  | _ => false

/-- The assignment to `m_exception_ptr` releases what it held, also where it is
not the active member of the union. -/
def overwritten (m : UnionMemory V E) (bytes : m.Bytes) : PodContainer V E → List (RefEvent E)
  | .exception e => [.released e]
  | _ => if m.isNull bytes then [] else [.releasedUnstored]

def implementation (m : UnionMemory V E) (zero : V) : Implementation V E where
  State := PodContainer V E × m.Bytes
  returnValue s v := ((s.1.returnValue v,m.store v s.2),[])
  setException s e := ((s.1.setException e,m.address e),.stored e::s.1.overwritten m s.2)
  result s := s.1.result zero
  valueReady s := s.1.valueReady
  valueException s := s.1.valueException
  valueUnset s := s.1.valueUnset
  destroy s := s.1.held.map .released

/-- The alternative of the variant that the tag names. -/
def toVariant : PodContainer V E → Variant V E
  | .none => .unset
  | .value v => .value v
  | .exception e => .exception e

end PodContainer

def releasedRefs (events : List (RefEvent E)) : List E := events.filterMap RefEvent.releasedRef

def storedRefs (events : List (RefEvent E)) : List E := events.filterMap RefEvent.storedRef

structure Settled (held : List E) (events : List (RefEvent E)) : Prop where
  once : (releasedRefs events).Perm (held ++ storedRefs events)
  noOther : RefEvent.releasedUnstored ∉ events

/-- Two containers with the same content answer alike and settle all references. -/
structure Alike (held : List E) (first second : Observation V E) : Prop where
  answers : first.answers = second.answers
  first : Settled held first.events
  second : Settled held second.events

/-- `result` only while a value is stored, `set_exception` only over no exception
and on bytes that read as null, and no value over an exception. -/
def Fits (m : UnionMemory V E) (c : PodContainer V E) (bytes : m.Bytes) : List (Call V E) → Prop
  | [] => True
  | .returnValue v::calls => c.valueException = false ∧ Fits m (.value v) (m.store v bytes) calls
  | .setException e::calls => c.valueException = false ∧ m.isNull bytes = true ∧ Fits m (.exception e) (m.address e) calls
  | .result::calls => c.valueReady = true ∧ Fits m c bytes calls
  | _::calls => Fits m c bytes calls

section
variable (e : E) (events events' held : List (RefEvent E)) (refs : List E)

@[simp] theorem releasedRefs_nil : releasedRefs ([] : List (RefEvent E)) = [] := rfl

@[simp] theorem storedRefs_nil : storedRefs ([] : List (RefEvent E)) = [] := rfl

@[simp] theorem releasedRefs_stored : releasedRefs (.stored e::events) = releasedRefs events := rfl

@[simp] theorem storedRefs_stored : storedRefs (.stored e::events) = e::storedRefs events := rfl

@[simp] theorem releasedRefs_released : releasedRefs (.released e::events) = e::releasedRefs events := rfl

@[simp] theorem storedRefs_released : storedRefs (.released e::events) = storedRefs events := rfl

@[simp] theorem releasedRefs_other : releasedRefs (.releasedUnstored::events) = releasedRefs events := rfl

@[simp] theorem storedRefs_other : storedRefs (.releasedUnstored::events) = storedRefs events := rfl

@[simp] theorem releasedRefs_append : releasedRefs (events ++ events') = releasedRefs events ++ releasedRefs events' :=
  List.filterMap_append

@[simp] theorem storedRefs_append : storedRefs (events ++ events') = storedRefs events ++ storedRefs events' :=
  List.filterMap_append

@[simp] theorem releasedRefs_map : releasedRefs (refs.map .released) = refs := by
  induction refs <;> simp_all

@[simp] theorem storedRefs_map : storedRefs (refs.map .released) = [] := by
  induction refs <;> simp_all

end

/-- No function releases more than the container held and has stored. -/
structure Accounts (c : Implementation V E) (held : c.State → List E) : Prop where
  returnValue : ∀ s v, (releasedRefs (c.returnValue s v).2).length + (held (c.returnValue s v).1).length ≤
    (held s).length + (storedRefs (c.returnValue s v).2).length
  setException : ∀ s e, (releasedRefs (c.setException s e).2).length + (held (c.setException s e).1).length ≤
    (held s).length + (storedRefs (c.setException s e).2).length
  destroy : ∀ s, (releasedRefs (c.destroy s)).length ≤ (held s).length

theorem Accounts.run {c : Implementation V E} {held : c.State → List E} (accounts : Accounts c held) (s : c.State)
    (calls : List (Call V E)) :
    (releasedRefs (c.run s calls).events).length ≤ (held s).length + (storedRefs (c.run s calls).events).length := by
  induction calls generalizing s with
  | nil => exact Nat.le_add_right_of_le (accounts.destroy s)
  | cons call calls ih =>
    cases call with
    | returnValue v =>
      have now := accounts.returnValue s v
      have later := ih (c.returnValue s v).1
      simp only [Implementation.run,Observation.after,releasedRefs_append,storedRefs_append,List.length_append]
      omega
    | setException e =>
      have now := accounts.setException s e
      have later := ih (c.setException s e).1
      simp only [Implementation.run,Observation.after,releasedRefs_append,storedRefs_append,List.length_append]
      omega
    | result =>
      cases outcome : c.result s with
      | terminate => simp [Implementation.run,outcome]
      | value v => simpa only [Implementation.run,outcome,Observation.answering] using ih s
      | throws e => simpa only [Implementation.run,outcome,Observation.answering] using ih s
    | valueReady | valueException | valueUnset => exact ih s

private theorem Accounts.not_settled {c : Implementation V E} {held : c.State → List E} (accounts : Accounts c held) (s : c.State)
    (calls : List (Call V E)) (due : List E) (lost : (held s).length < due.length) : ¬ Settled due (c.run s calls).events := by
  intro settled
  have same := settled.once.length_eq
  have most := accounts.run s calls
  rw [List.length_append] at same
  omega

private theorem Variant.accounts (neverSet : E) : Accounts (Variant.implementation (V := V) neverSet) Variant.held := by
  constructor
  · intro s v
    simp only [Variant.implementation,releasedRefs_map,storedRefs_map]
    exact Nat.le_refl _
  · intro s e
    exact Nat.le_add_left ..
  · intro s
    simp only [Variant.implementation,releasedRefs_map]
    exact Nat.le_refl _

private theorem PodContainer.accounts (m : UnionMemory V E) (zero : V) :
    Accounts (PodContainer.implementation m zero) (fun s => s.1.held) := by
  constructor
  · intro s v
    exact Nat.zero_le _
  · rintro ⟨c,bytes⟩ e
    cases c with
    | none | value v =>
      simp only [PodContainer.implementation,PodContainer.overwritten]
      split <;> exact Nat.le_refl _
    | exception e => exact Nat.le_refl _
  · intro s
    simp only [PodContainer.implementation,releasedRefs_map]
    exact Nat.le_refl _

section
variable {m : UnionMemory V E} {zero : V} {neverSet : E}

def AlikeFrom (m : UnionMemory V E) (zero : V) (neverSet : E) (c : PodContainer V E) (bytes : m.Bytes) (calls : List (Call V E)) : Prop :=
  Alike c.held ((PodContainer.implementation m zero).run (c,bytes) calls) ((Variant.implementation neverSet).run c.toVariant calls)

private theorem toVariant_held (c : PodContainer V E) : c.toVariant.held = c.held := by cases c <;> rfl

private theorem Alike.answering_iff {held : List E} {first second : Observation V E} (a b : Answer V E) :
    Alike held (first.answering a) (second.answering b) ↔ a = b ∧ Alike held first second := by
  constructor
  · intro h
    obtain ⟨same,rest⟩ := List.cons_eq_cons.mp h.answers
    exact ⟨same,rest,h.first,h.second⟩
  · rintro ⟨rfl,h⟩
    exact ⟨congrArg (a::·) h.answers,h.first,h.second⟩

private theorem Settled.stored_iff (held : List E) (e : E) (events : List (RefEvent E)) :
    Settled held (.stored e::events) ↔ Settled (held ++ [e]) events := by
  have due : (held ++ e::storedRefs events) = held ++ [e] ++ storedRefs events := by simp
  constructor
  · rintro ⟨once,noOther⟩
    exact ⟨due ▸ once,fun member => noOther (List.mem_cons_of_mem _ member)⟩
  · rintro ⟨once,noOther⟩
    exact ⟨due ▸ once,fun member => noOther (List.mem_of_ne_of_mem (by simp) member)⟩

private theorem alikeFrom_nil (c : PodContainer V E) (bytes : m.Bytes) : AlikeFrom m zero neverSet c bytes [] := by
  have settled : Settled c.held (c.held.map .released) := by
    refine ⟨?_,by simp⟩
    simp
  refine ⟨rfl,settled,?_⟩
  have same := settled
  rwa [← toVariant_held] at same ⊢

private theorem alikeFrom_returnValue (c : PodContainer V E) (bytes : m.Bytes) (v : V) (calls : List (Call V E)) :
    AlikeFrom m zero neverSet c bytes (.returnValue v::calls) ↔
      c.valueException = false ∧ AlikeFrom m zero neverSet (.value v) (m.store v bytes) calls := by
  cases c with
  | none | value w => exact (and_iff_right rfl).symm
  | exception e =>
    refine iff_of_false (fun alike => ?_) (by simp [PodContainer.valueException])
    -- the specialisation has lost `e`
    exact (PodContainer.accounts m zero).not_settled (.value v,m.store v bytes) calls [e] Nat.zero_lt_one alike.first

private theorem alikeFrom_setException (c : PodContainer V E) (bytes : m.Bytes) (e : E) (calls : List (Call V E)) :
    AlikeFrom m zero neverSet c bytes (.setException e::calls) ↔
      c.valueException = false ∧ m.isNull bytes = true ∧ AlikeFrom m zero neverSet (.exception e) (m.address e) calls := by
  have clean : ∀ c : PodContainer V E, c.held = [] → c.overwritten m bytes = (if m.isNull bytes then [] else [.releasedUnstored]) →
      (AlikeFrom m zero neverSet c bytes (.setException e::calls) ↔
        m.isNull bytes = true ∧ AlikeFrom m zero neverSet (.exception e) (m.address e) calls) := by
    intro c empty overwritten
    have first : ((PodContainer.implementation m zero).run (c,bytes) (.setException e::calls)) =
        ((PodContainer.implementation m zero).run (.exception e,m.address e) calls).after
          (.stored e::c.overwritten m bytes) := rfl
    rw [AlikeFrom,first,overwritten,empty]
    by_cases null : m.isNull bytes = true
    · rw [if_pos null,and_iff_right null]
      constructor
      · exact fun ⟨answers,first,second⟩ => ⟨answers,(Settled.stored_iff [] e _).mp first,(Settled.stored_iff [] e _).mp second⟩
      · exact fun ⟨answers,first,second⟩ => ⟨answers,(Settled.stored_iff [] e _).mpr first,(Settled.stored_iff [] e _).mpr second⟩
    · rw [if_neg null]
      refine iff_of_false (fun alike => ?_) (fun ⟨null',_⟩ => null null')
      exact alike.first.noOther (by simp [Observation.after])
  cases c with
  | none | value w => exact (clean _ rfl rfl).trans (and_iff_right rfl).symm
  | exception old =>
    refine iff_of_false (fun alike => ?_) (by simp [PodContainer.valueException])
    -- the variant has lost `old`
    have settled := (Settled.stored_iff [old] e _).mp alike.second
    exact (Variant.accounts neverSet).not_settled (.exception e) calls [old,e] Nat.one_lt_two settled

private theorem alikeFrom_result (c : PodContainer V E) (bytes : m.Bytes) (calls : List (Call V E)) :
    AlikeFrom m zero neverSet c bytes (.result::calls) ↔ c.valueReady = true ∧ AlikeFrom m zero neverSet c bytes calls := by
  cases c with
  | none =>
    refine iff_of_false (fun alike => ?_) (by simp [PodContainer.valueReady])
    have same : Answer.result (.value zero) = Answer.result (.throws neverSet) := (List.cons_eq_cons.mp alike.answers).1
    simp at same
  | value v => exact (Alike.answering_iff (.result (.value v)) (.result (.value v))).trans (and_congr_left' (iff_of_true rfl rfl))
  | exception e =>
    refine iff_of_false (fun alike => ?_) (by simp [PodContainer.valueReady])
    have same : Answer.result .terminate = Answer.result (V := V) (.throws e) := (List.cons_eq_cons.mp alike.answers).1
    simp at same

/-- The two containers stay alike exactly along the calls that fit. -/
theorem alikeFrom_iff (c : PodContainer V E) (bytes : m.Bytes) (calls : List (Call V E)) :
    AlikeFrom m zero neverSet c bytes calls ↔ Fits m c bytes calls := by
  induction calls generalizing c bytes with
  | nil => exact iff_of_true (alikeFrom_nil c bytes) trivial
  | cons call calls ih =>
    cases call with
    | returnValue v => rw [alikeFrom_returnValue,ih]; exact Iff.rfl
    | setException e => rw [alikeFrom_setException,ih]; exact Iff.rfl
    | result => rw [alikeFrom_result,ih]; exact Iff.rfl
    | valueReady | valueException | valueUnset =>
      refine (Alike.answering_iff _ _).trans ?_
      refine (and_iff_right ?_).trans (ih c bytes)
      cases c <;> rfl

end

/-- The specialisation for POD types behaves like the general container exactly on the calls that fit. -/
theorem pod_behaves_alike_iff (m : UnionMemory V E) (zero : V) (neverSet : E) (bytes : m.Bytes) (calls : List (Call V E)) :
    Alike [] ((PodContainer.implementation m zero).run (.none,bytes) calls)
      ((Variant.implementation neverSet).run .unset calls) ↔ Fits m .none bytes calls :=
  alikeFrom_iff .none bytes calls

end

/-- A pointer-sized value, in a union whose memory is a word. -/
def wordMemory : UnionMemory Nat Nat := ⟨Nat,fun v _ => v,fun e => e + 1,fun bytes => bytes == 0⟩

/-- On memory that does not happen to read as null the first exception releases what was never stored. -/
theorem first_exception_releases_unstored : ¬ ∀ (bytes : Nat) (calls : List (Call Nat Nat)),
    Alike [] ((PodContainer.implementation wordMemory 0).run (.none,bytes) calls)
      ((Variant.implementation 404).run .unset calls) := by
  intro claimed
  exact (claimed 1 [.setException 5]).first.noOther (List.mem_cons_of_mem _ List.mem_cons_self)

end TinyCoro.Task
