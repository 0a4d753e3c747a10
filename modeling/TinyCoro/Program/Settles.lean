import TinyCoro.Comp.EventSettles
import TinyCoro.Comp.MutexSettles
import TinyCoro.Comp.WaitGroupSettles
import TinyCoro.Program.Tended

/-! A program comes to rest: without new calls and submissions the workers and the calls
under way in all components end, and no coroutine is left behind on the way. -/
namespace TinyCoro.Program
open Library

variable {Coro Ctx ι : Type}

/-- The calls of a component under way, which go on by the actions `goesOn`, come to an end
under every schedule; if none can go on the component is at rest. -/
structure Component.Settles (C : Component Coro Ctx) (goesOn : C.Action → Prop) (AtRest : C.State → Prop) : Prop where
  ends : ∀ c, C.machine.Reachable c → Acc (Function.swap (C.machine.Moves goesOn)) c
  exec : ∀ x, goesOn (C.exec x) ∧ C.actor (C.exec x) = none
  inside : ∀ c c' a, goesOn a → C.machine.step c a = some c' → (∃ x, a = C.exec x) ∨
    ∃ t, C.actor a = some t ∧ C.site a = none ∧ C.idle c t = false ∧ C.suspended c t = false
  takes : ∀ c, C.machine.Reachable c → ∀ x, (C.contexts c).taskQueue x ≠ [] → ∃ c', C.machine.step c (C.exec x) = some c'
  awake : ∀ c, C.machine.Reachable c → (∀ a t, goesOn a → C.actor a = some t → C.machine.step c a = none) →
    ∀ t, C.idle c t = true ∨ C.suspended c t = true
  rests : ∀ c, C.machine.Reachable c → (∀ c', ¬ C.machine.Moves goesOn c c') → AtRest c

def Frames.GoesOn (F : Frames Coro Ctx) (step : Coro → F.Action) (a : F.Action) : Prop := (∃ t, a = step t) ∨ ∃ x, a = F.exec x

/-- What remains to show of a component whose calls go on by one kind of step. -/
theorem Frames.settle [DecidableEq Ctx] {F : Frames Coro Ctx} (lawful : F.Lawful) (step : Coro → F.Action) {AtRest : F.State → Prop}
    (kinds : ∀ t, F.actor (step t) = some t ∧ F.site (step t) = none) (alone : ∀ x, F.actor (F.exec x) = none)
    (ends : ∀ s, F.machine.Reachable s → Acc (Function.swap (F.machine.Moves (F.GoesOn step))) s)
    (inside : ∀ s s' t, F.machine.step s (step t) = some s' → F.idle (F.pc s t) = false ∧ F.suspended (F.pc s t) = false)
    (takes : ∀ s x t rest, (F.contexts s).taskQueue x = t::rest → F.suspended (F.pc s t) = true → F.machine.step s (F.exec x) ≠ none)
    (awake : ∀ s, F.machine.Reachable s → (∀ t, F.machine.step s (step t) = none) →
      ∀ t, F.idle (F.pc s t) = true ∨ F.suspended (F.pc s t) = true)
    (rests : ∀ s, F.machine.Reachable s → (∀ s', ¬ F.machine.Moves (F.GoesOn step) s s') → AtRest s) :
    F.component.Settles (F.GoesOn step) AtRest where
  ends := ends
  exec x := ⟨.inr ⟨x,rfl⟩,alone x⟩
  inside s s' a kind moved := by
    rcases kind with ⟨t,rfl⟩ | ⟨x,rfl⟩
    · exact .inr ⟨t,(kinds t).1,(kinds t).2,inside s s' t moved⟩
    · exact .inl ⟨x,rfl⟩
  takes s reachable x more := by
    obtain ⟨t,rest,front⟩ : ∃ t rest, (F.contexts s).taskQueue x = t::rest := List.exists_cons_of_ne_nil more
    have member : t ∈ (F.contexts s).taskQueue x := by simp [front]
    exact Option.ne_none_iff_exists'.mp (takes s x t rest front (lawful.queued s reachable x t member).1)
  awake s reachable stuck := awake s reachable fun t => stuck (step t) t (.inl ⟨t,rfl⟩) (kinds t).1
  rests := rests

section
variable [DecidableEq Coro] [DecidableEq Ctx]

private theorem Event.frames_settle {V : Type} : (Event.frames V Coro Ctx).component.Settles Event.GoesOn Event.AtRest := by
  apply Frames.settle Event.frames_lawful Event.Action.step (fun _ => ⟨rfl,rfl⟩) (fun _ => rfl) (fun _ => Event.calls_end)
  · intro c c' t moved
    cases pc : c.pc t with
    | idle | suspended a => simp [Event.frames,Event.machine,Event.step,Event.advance,pc] at moved
    | _ => simp [Event.frames,pc,Event.Pc.asleep]
  · intro c x t rest front asleep
    cases pc : c.pc t with
    | suspended a => simp [Event.frames,Event.machine,Event.step,show c.contexts.taskQueue x = t::rest from front,pc]
    | _ => simp [Event.frames,pc,Event.Pc.asleep] at asleep
  · intro c _ stuck t
    by_contra busy
    rw [not_or] at busy
    obtain ⟨c',moved⟩ := Event.advance_moves (s := c) (t := t) (fun idle => busy.1 (by simp [Event.frames,idle]))
      fun a asleep => busy.2 (by simp [Event.frames,asleep,Event.Pc.asleep])
    have blocked : Event.advance c t = none := stuck t
    simp [moved] at blocked
  · exact fun c reachable => Event.atRest_of_stuck (Event.reachable_linked c reachable)

private theorem Latch.frames_settle : (Latch.frames Coro Ctx).component.Settles Latch.GoesOn fun c => Event.AtRest c.ev where
  ends c reachable := by
    have event := Event.calls_end (Latch.reachable_event c reachable)
    apply Subrelation.accessible _ (InvImage.accessible (fun c : Latch.State Coro Ctx => c.ev) event)
    rintro c' c ⟨a,kind,moved⟩
    rcases kind with ⟨t,rfl⟩ | ⟨x,rfl⟩
    all_goals obtain ⟨ev,inner,rfl⟩ := Option.map_eq_some_iff.mp moved
    · exact ⟨.step t,.inl ⟨t,rfl⟩,inner⟩
    · exact ⟨.exec x,.inr ⟨x,rfl⟩,inner⟩
  exec x := ⟨.inr ⟨x,rfl⟩,rfl⟩
  inside c c' a kind moved := by
    rcases kind with ⟨t,rfl⟩ | ⟨x,rfl⟩
    all_goals obtain ⟨ev,inner,_⟩ := Option.map_eq_some_iff.mp moved
    · rcases Event.frames_settle.inside c.ev ev (.step t) (.inl ⟨t,rfl⟩) inner with ⟨x,same⟩ | ⟨u,actor,_,busy⟩
      · cases same
      · cases actor
        exact .inr ⟨t,rfl,rfl,busy⟩
    · exact .inl ⟨x,rfl⟩
  takes c reachable x more := by
    obtain ⟨ev,inner⟩ := Event.frames_settle.takes c.ev (Latch.reachable_event c reachable) x more
    exact ⟨{ c with ev := ev },Option.map_eq_some_iff.mpr ⟨ev,inner,rfl⟩⟩
  awake c reachable stuck := by
    apply Event.frames_settle.awake c.ev (Latch.reachable_event c reachable)
    rintro a t (⟨u,rfl⟩ | ⟨x,rfl⟩) actor
    · exact Option.map_eq_none_iff.mp (stuck (.step u) t (.inl ⟨u,rfl⟩) actor)
    · contradiction
  rests c reachable stuck := by
    apply Event.frames_settle.rests c.ev (Latch.reachable_event c reachable)
    rintro ev ⟨a,⟨t,rfl⟩ | ⟨x,rfl⟩,inner⟩
    · exact stuck _ ⟨.step t,.inl ⟨t,rfl⟩,Option.map_eq_some_iff.mpr ⟨ev,inner,rfl⟩⟩
    · exact stuck _ ⟨.exec x,.inr ⟨x,rfl⟩,Option.map_eq_some_iff.mpr ⟨ev,inner,rfl⟩⟩

private theorem WaitGroup.frames_settle : (WaitGroup.frames Coro Ctx).component.Settles WaitGroup.GoesOn WaitGroup.AtRest := by
  apply Frames.settle WaitGroup.frames_lawful WaitGroup.Action.step (fun _ => ⟨rfl,rfl⟩) (fun _ => rfl) (fun _ => WaitGroup.calls_end)
  · intro c c' t moved
    cases pc : c.pc t with
    | idle | suspended a => simp [WaitGroup.frames,WaitGroup.machine,WaitGroup.step,WaitGroup.advance,pc] at moved
    | _ => simp [WaitGroup.frames,pc,WaitGroup.Pc.asleep]
  · intro c x t rest front asleep
    cases pc : c.pc t with
    | suspended a => simp [WaitGroup.frames,WaitGroup.machine,WaitGroup.step,show c.contexts.taskQueue x = t::rest from front,pc]
    | _ => simp [WaitGroup.frames,pc,WaitGroup.Pc.asleep] at asleep
  · intro c _ stuck t
    by_contra busy
    rw [not_or] at busy
    obtain ⟨c',moved⟩ := WaitGroup.advance_moves (s := c) (t := t) (fun idle => busy.1 (by simp [WaitGroup.frames,idle]))
      fun a asleep => busy.2 (by simp [WaitGroup.frames,asleep,WaitGroup.Pc.asleep])
    have blocked : WaitGroup.advance c t = none := stuck t
    simp [moved] at blocked
  · exact fun c reachable => WaitGroup.atRest_of_stuck (WaitGroup.reachable_linked c reachable)

private theorem Mutex.frames_settle {Cv Shared : Type} [DecidableEq Cv] :
    (Mutex.frames Coro Ctx Cv Shared).component.Settles Mutex.GoesOn Mutex.AtRest := by
  apply Frames.settle Mutex.frames_lawful Mutex.Action.step (fun _ => ⟨rfl,rfl⟩) (fun _ => rfl) (fun _ => Mutex.calls_end)
  · intro c c' t moved
    cases pc : c.pc t with
    | idle | suspended a => simp [Mutex.frames,Mutex.machine,Mutex.step,Mutex.advance,pc] at moved
    | _ => simp [Mutex.frames,pc,Mutex.Pc.asleep,Mutex.Pc.resting]
  · intro c x t rest front asleep
    cases pc : c.pc t with
    | suspended a => simp [Mutex.frames,Mutex.machine,Mutex.step,show c.contexts.taskQueue x = t::rest from front,pc]
    | _ => simp [Mutex.frames,pc,Mutex.Pc.asleep] at asleep
  · intro c reachable stuck t
    by_contra busy
    rw [not_or] at busy
    obtain ⟨_,_,inv⟩ := Mutex.reachable_invariant c reachable
    have inside : (c.pc t).settled = false := by
      cases pc : c.pc t with
      | idle => exact absurd (by simp [Mutex.frames,pc,Mutex.Pc.resting]) busy.1
      | suspended a => exact absurd (by simp [Mutex.frames,pc,Mutex.Pc.asleep]) busy.2
      | _ => rfl
    obtain ⟨u,moves⟩ := Mutex.some_moves inv (Mutex.reachable_held c reachable) inside
    exact moves (stuck u)
  · exact fun _ => Mutex.atRest_of_stuck

def Kind.GoesOn : (kind : Kind) → (kind.frames Coro Ctx).Action → Prop
  | .event _ => Event.GoesOn
  | .latch => Latch.GoesOn
  | .waitGroup => WaitGroup.GoesOn
  | .mutex _ _ _ => Mutex.GoesOn

def Kind.AtRest : (kind : Kind) → (kind.frames Coro Ctx).State → Prop
  | .event _ => Event.AtRest
  | .latch => fun c => Event.AtRest c.ev
  | .waitGroup => WaitGroup.AtRest
  | .mutex _ _ _ => Mutex.AtRest

theorem Kind.settles (kind : Kind) : (kind.frames Coro Ctx).component.Settles kind.GoesOn kind.AtRest := by
  cases kind with
  | event => exact Event.frames_settle
  | latch => exact Latch.frames_settle
  | waitGroup => exact WaitGroup.frames_settle
  | mutex => exact Mutex.frames_settle

end
end TinyCoro.Program
