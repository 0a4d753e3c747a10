/-! What a promise keeps its result in, by the kind of the return type:
`promise<void>` an exception pointer, the general container a variant, and the
specialisation for POD types a union with a tag. -/
namespace TinyCoro.Task

inductive ReturnType
  | void
  | reference
  | pod
  | other
  deriving DecidableEq

/-- The values of a program. `zero` is `T{}` of a POD type, `neverSet` the
`runtime_error` for a value that was never set. -/
structure Types where
  Reference : Type
  Pod : Type
  Object : Type
  Exception : Type
  zero : Pod
  neverSet : Exception

def Types.Value (T : Types) : ReturnType → Type
  | .void => Unit
  | .reference => T.Reference
  | .pod => T.Pod
  | .other => T.Object

/-- What a call of `result()` does; an exception that leaves a `noexcept`
function ends in `std::terminate`. -/
inductive Result (V E : Type)
  | value (v : V)
  | throws (e : E)
  | terminate

def Result.outcome {V E : Type} : Result V E → Option (Except E V)
  | .value v => some (.ok v)
  | .throws e => some (.error e)
  | .terminate => none

inductive Variant (V E : Type)
  | unset
  | value (v : V)
  | exception (e : E)

namespace Variant
variable {V E : Type}

def returnValue (_ : Variant V E) (v : V) : Variant V E := .value v

def setException (_ : Variant V E) (e : E) : Variant V E := .exception e

def result (neverSet : E) : Variant V E → Result V E
  | .value v => .value v
  | .exception e => .throws e
  | .unset => .throws neverSet

end Variant

/-- The tag names the active member of the union; both are written together. -/
inductive PodContainer (V E : Type)
  | none
  | value (v : V)
  | exception (e : E)

namespace PodContainer
variable {V E : Type}

def returnValue (_ : PodContainer V E) (v : V) : PodContainer V E := .value v

def setException (_ : PodContainer V E) (e : E) : PodContainer V E := .exception e

def result (zero : V) : PodContainer V E → Result V E
  | .value v => .value v
  -- `result` is noexcept, and `rethrow_exception` inside it throws
  | .exception _ => .terminate
  | .none => .value zero

end PodContainer

namespace Types
variable (T : Types)

def Storage : ReturnType → Type
  | .void => Option T.Exception
  | .pod => PodContainer T.Pod T.Exception
  | .reference => Variant T.Reference T.Exception
  | .other => Variant T.Object T.Exception

def unset : (r : ReturnType) → T.Storage r
  | .void => Option.none
  | .pod => PodContainer.none
  | .reference | .other => Variant.unset

variable {T}

def returnValue : {r : ReturnType} → T.Storage r → T.Value r → T.Storage r
  | .void, s, _ => s
  | .pod, s, v => PodContainer.returnValue s v
  | .reference, s, v | .other, s, v => Variant.returnValue s v

def unhandledException : {r : ReturnType} → T.Storage r → T.Exception → T.Storage r
  | .void, _, e => some e
  | .pod, s, e => PodContainer.setException s e
  | .reference, s, e | .other, s, e => Variant.setException s e

def result : {r : ReturnType} → T.Storage r → Result (T.Value r) T.Exception
  | .void, Option.none => .value ()
  | .void, some e => .throws e
  | .pod, s => PodContainer.result T.zero s
  | .reference, s | .other, s => Variant.result T.neverSet s

def read (r : ReturnType) : Except T.Exception (T.Value r) → Result (T.Value r) T.Exception
  | .ok v => .value v
  | .error e => if r = .pod then .terminate else .throws e

theorem result_returnValue (r : ReturnType) (v : T.Value r) : result (returnValue (T.unset r) v) = read r (.ok v) := by
  cases r <;> rfl

theorem result_unhandledException (r : ReturnType) (s : T.Storage r) (e : T.Exception) :
    result (unhandledException s e) = read r (.error e) := by
  cases r <;> rfl

theorem read_outcome (r : ReturnType) (o : Except T.Exception (T.Value r)) :
    (read r o).outcome = some o ↔ ¬ (r = .pod ∧ ∃ e, o = .error e) := by
  cases o with
  | ok v => simp [read,Result.outcome]
  | error e =>
    by_cases pod : r = .pod
    · simp [read,Result.outcome,pod]
    · simp [read,Result.outcome,pod]

end Types
end TinyCoro.Task
