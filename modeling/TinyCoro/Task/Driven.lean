import TinyCoro.Task.Nested

/-! Driving a root task by `resume()` against direct-style evaluation. It is right
as long as nobody but the root itself suspends; `resume()` of a root that awaits a
suspended child runs `await_resume` on the unfinished child. -/
namespace TinyCoro.Task
open StateTransition Relation

variable {T : Types} {World : Type}

/-- Calling `resume()` until it returns false ends at the root's final suspend point
with the outcome and the effects of direct style, and no `await_resume` is early. -/
structure Coro.DrivenMatches {r : ReturnType} (root : Coro T World r) (w : World) : Prop where
  result : ∃ s ∈ StateTransition.eval drive (start root w), s.control = .returned ∧ s.world = (root.eval w).2 ∧
    ∃ promise : Promise T r, s.heap 0 = some ⟨r,promise,.final⟩ ∧
      (Types.result promise.storage).outcome = some (root.eval w).1
  awaits : ∀ s, Reaches drive (start root w) s → AwaitsFinished s

private theorem drives_reaches {s s' : State T World} (drives : ReflTransGen (Drives true) s s') : Reaches drive s s' :=
  ReflTransGen.mono (fun _ _ moved => moved.2) _ _ drives

/-- On the one run there is, every state before a careful end is careful. -/
theorem careful_of_drives {s s' t : State T World} (drives : ReflTransGen (Drives true) s s') (stopped : drive s' = none)
    (careful : AwaitsFinished s') (reaches : Reaches drive s t) : AwaitsFinished t := by
  induction drives using ReflTransGen.head_induction_on with
  | refl =>
    rcases ReflTransGen.cases_head reaches with same | ⟨u,moved,_⟩
    · exact same ▸ careful
    · rw [stopped] at moved
      contradiction
  | head step rest ih =>
    rcases ReflTransGen.cases_head reaches with same | ⟨u,moved,further⟩
    · exact same ▸ step.1
    · have moved' : drive _ = some _ := step.2
      cases Option.some.inj (moved'.symm.trans moved)
      exact ih further

theorem Finished.stopped {s s' : State T World} {r : ReturnType} {promise : Promise T r} {code : Coro T World r}
    (finished : Finished s s' 0 promise code) (outermost : promise.continuation = none) :
    s'.control = .returned ∧ drive s' = none := by
  obtain ⟨storage,frame,_⟩ := finished.frame
  have control := finished.control
  rw [outermost] at control
  exact ⟨control,by simp only [drive,control,Option.elim_none,frame]⟩

private theorem driven_matches {r : ReturnType} {root : Coro T World r} {w : World} (quiet : ¬ root.podThrows w)
    (outside : ¬ root.suspendsInside true w) : root.DrivenMatches w := by
  obtain ⟨s,drives,⟨_,aborted⟩ | ⟨finished,_⟩ | ⟨_,inside⟩⟩ := start_comes true r root w (.inl rfl)
  · exact absurd aborted quiet
  · obtain ⟨returned,stopped⟩ := finished.stopped rfl
    obtain ⟨storage,frame,result⟩ := finished.frame
    refine ⟨⟨s,mem_eval.mpr ⟨drives_reaches drives,stopped⟩,returned,finished.world,_,frame,?_⟩,?_⟩
    · rw [result]
      exact (Types.read_outcome _ _).mpr (finished.pod.not.mp quiet)
    · intro t reaches
      refine careful_of_drives drives stopped ?_ reaches
      intro handle _ _ _ _ _ running _
      rw [returned] at running
      contradiction
  · exact absurd inside outside

private theorem not_suspendsInside_of_matches {r : ReturnType} {root : Coro T World r} {w : World} (matched : root.DrivenMatches w) :
    ¬ root.podThrows w ∧ ¬ root.suspendsInside true w := by
  obtain ⟨⟨t,evaluated,returned,_,promise,frame,outcome⟩,careful⟩ := matched
  obtain ⟨s,drives,⟨aborted,_⟩ | ⟨finished,outside⟩ | ⟨early,_⟩⟩ := start_comes true r root w (.inl rfl)
  · have stopped : drive s = none := by simp only [drive,step,aborted]
    have same := Part.mem_unique evaluated (mem_eval.mpr ⟨drives_reaches drives,stopped⟩)
    rw [same,aborted] at returned
    contradiction
  · have same := Part.mem_unique evaluated (mem_eval.mpr ⟨drives_reaches drives,(finished.stopped rfl).2⟩)
    subst same
    obtain ⟨storage,frame',result⟩ := finished.frame
    cases frame.symm.trans frame'
    have read : (Types.read r (root.eval w).1).outcome = some (root.eval w).1 := result ▸ outcome
    exact ⟨finished.pod.not.mpr ((Types.read_outcome _ _).mp read),outside⟩
  · exact absurd (careful s (drives_reaches drives)) early

/-- Driving the root means evaluating in direct style exactly when no coroutine but
the root suspends and none with a POD return type ends with an exception. -/
theorem driven_matches_iff (r : ReturnType) (root : Coro T World r) (w : World) :
    root.DrivenMatches w ↔ ¬ root.podThrows w ∧ ¬ root.suspendsInside true w :=
  ⟨not_suspendsInside_of_matches,fun ⟨quiet,outside⟩ => driven_matches quiet outside⟩

def sleepsThenSeven : Coro Concrete Unit .pod := .suspendAlways (.coReturn (7 : Int))

def awaitsSleeper : Coro Concrete Unit .pod :=
  .coAwait sleepsThenSeven fun
    | .ok v => .coReturn v
    | .error e => .throws e

/-- The second `resume()` reads the child's `T{}` and the root returns 0. -/
theorem awaits_sleeper_returns_zero : ¬ ∀ (r : ReturnType) (root : Coro Concrete Unit r), root.DrivenMatches () := by
  intro claimed
  obtain ⟨⟨t,evaluated,_,_,promise,frame,outcome⟩,_⟩ := claimed .pod awaitsSleeper
  have reaches : Reaches drive (start awaitsSleeper ()) _ :=
    .head rfl (.head rfl (.head rfl (.head rfl (.single rfl))))
  have same := Part.mem_unique evaluated (mem_eval.mpr ⟨reaches,rfl⟩)
  subst same
  cases frame
  cases outcome

end TinyCoro.Task
