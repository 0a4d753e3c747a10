import TinyCoro.Task.Resume

/-! Awaiting nested tasks against direct-style evaluation. Resuming the root runs
it to its final suspend point with the outcome of direct style, unless a
coroutine with a POD return type ends with an exception. -/
namespace TinyCoro.Task
open StateTransition Relation

variable {T : Types} {World : Type}

/-- The one `resume()` of the root ends at its final suspend point, and its
promise gives the outcome of direct style, with the same effects. -/
def Coro.MatchesDirectStyle {r : ReturnType} (root : Coro T World r) (w : World) : Prop :=
  ∃ s ∈ StateTransition.eval step (start root w), s.control = .returned ∧ s.world = (root.eval w).2 ∧
    ∃ promise : Promise T r, s.heap 0 = some ⟨r,promise,.final⟩ ∧
      (Types.result promise.storage).outcome = some (root.eval w).1

/-- What one run of a suspension-free body comes to. -/
def Completes (s : State T World) (handle : Handle) {r : ReturnType} (promise : Promise T r)
    (code : Coro T World r) : Prop :=
  ∃ s', Reaches step s s' ∧
    (s'.control = .terminated ∧ code.podThrows s.world ∨ Finished s s' handle promise code)

theorem Coro.SuspensionFree.quiet (outermost : Bool) {r : ReturnType} {code : Coro T World r} (free : code.SuspensionFree)
    (w : World) : ¬ code.suspendsInside outermost w := by
  induction code generalizing outermost w with
  | coReturn | throws => exact id
  | coAwait child rest ihChild ihRest =>
    rintro (inside | inside)
    · exact ihChild false free.1 w inside
    · exact ihRest _ outermost (free.2 _) _ inside
  | effect change rest ih => exact ih w outermost (free w) _
  | suspendAlways rest => exact free.elim

private theorem start_completes (r : ReturnType) (root : Coro T World r) (w : World) (free : root.SuspensionFree) :
    Completes (start root w) 0 ⟨.normal,none,T.unset r⟩ root := by
  obtain ⟨s,drives,ends⟩ := start_comes false r root w (.inr free)
  refine ⟨s,ReflTransGen.mono (fun _ _ moved => moved.2) _ _ drives,?_⟩
  rcases ends with aborted | ⟨finished,_⟩ | ⟨_,inside⟩
  · exact .inl aborted
  · exact .inr finished
  · exact absurd inside (free.quiet _ w)

private theorem step_stopped (s : State T World) (stopped : s.control = .returned ∨ s.control = .terminated) :
    step s = none := by
  rcases stopped with returned | terminated
  · simp only [step,returned]
  · simp only [step,terminated]

private theorem matches_of_not_podThrows (r : ReturnType) (root : Coro T World r) (w : World) (free : root.SuspensionFree)
    (quiet : ¬ root.podThrows w) : root.MatchesDirectStyle w := by
  obtain ⟨s,reaches,⟨_,aborted⟩ | finished⟩ := start_completes r root w free
  · exact absurd aborted quiet
  obtain ⟨storage,frame,result⟩ := finished.frame
  refine ⟨s,mem_eval.mpr ⟨reaches,step_stopped s (.inl finished.control)⟩,finished.control,finished.world,_,frame,?_⟩
  rw [result]
  exact (Types.read_outcome _ _).mpr (finished.pod.not.mp quiet)

private theorem not_matches_of_podThrows (r : ReturnType) (root : Coro T World r) (w : World) (free : root.SuspensionFree)
    (throws : root.podThrows w) : ¬ root.MatchesDirectStyle w := by
  rintro ⟨s,evaluated,returned,_,promise,frame,outcome⟩
  obtain ⟨s',reaches,⟨aborted,_⟩ | finished⟩ := start_completes r root w free
  · have same := Part.mem_unique evaluated (mem_eval.mpr ⟨reaches,step_stopped s' (.inr aborted)⟩)
    rw [same,aborted] at returned
    contradiction
  · have same := Part.mem_unique evaluated (mem_eval.mpr ⟨reaches,step_stopped s' (.inl finished.control)⟩)
    subst same
    obtain ⟨storage,frame',result⟩ := finished.frame
    cases frame.symm.trans frame'
    have read : (Types.read r (root.eval w).1).outcome = some (root.eval w).1 := result ▸ outcome
    exact (Types.read_outcome _ _).mp read (finished.pod.mp throws)

/-- Awaiting nested tasks means calling functions exactly when no coroutine
with a POD return type ends with an exception. -/
theorem nested_await_iff (r : ReturnType) (root : Coro T World r) (w : World) (free : root.SuspensionFree) :
    root.MatchesDirectStyle w ↔ ¬ root.podThrows w :=
  ⟨fun matched throws => not_matches_of_podThrows r root w free throws matched,
    matches_of_not_podThrows r root w free⟩

def Concrete : Types where
  Reference := Nat
  Pod := Int
  Object := String
  Exception := String
  zero := 0
  neverSet := "The return value was never set, did you execute the coroutine?"

def stringThrows : Coro Concrete Unit .pod :=
  .coAwait (.throws "failed" : Coro Concrete Unit .other) fun
    | .ok _ => .coReturn (0 : Int)
    | .error _ => .coReturn (1 : Int)

theorem string_throws_matches : stringThrows.MatchesDirectStyle () := by
  refine (nested_await_iff .pod stringThrows () ?_).mpr ?_
  · exact ⟨trivial,fun o => by cases o <;> trivial⟩
  · rintro (throws | throws)
    · cases throws
    · exact throws

def intThrows : Coro Concrete Unit .void :=
  .coAwait (.throws "failed" : Coro Concrete Unit .pod) fun
    | .ok _ => .coReturn ()
    | .error _ => .coReturn ()

theorem int_throws_terminates : ¬ ∀ (r : ReturnType) (root : Coro Concrete Unit r),
    root.SuspensionFree → root.MatchesDirectStyle () := by
  intro claimed
  have free : intThrows.SuspensionFree := ⟨trivial,fun o => by cases o <;> trivial⟩
  exact not_matches_of_podThrows .void intThrows () free (.inl rfl) (claimed .void intThrows free)

end TinyCoro.Task
