import TinyCoro.Task.Coroutine

/-! What `resume()` of the root comes to, called once or until it returns false.
Each call resumes the root's own frame, also when a coroutine further down is the
one that is suspended. -/
namespace TinyCoro.Task
open StateTransition Relation

variable {T : Types} {World : Type}

/-- In direct style some coroutine whose return type is POD ends with an exception. -/
def Coro.podThrows : {r : ReturnType} → Coro T World r → World → Prop
  | _, .coReturn _, _ => False
  | r, .throws _, _ => r = .pod
  | _, .coAwait child rest, w => child.podThrows w ∨ (rest (child.eval w).1).podThrows (child.eval w).2
  | _, .effect change rest, w => (rest w).podThrows (change w)
  | _, .suspendAlways rest, w => rest.podThrows w

/-- In direct style some coroutine other than the outermost one executes a suspension. -/
def Coro.suspendsInside : (outermost : Bool) → {r : ReturnType} → Coro T World r → World → Prop
  | _, _, .coReturn _, _ => False
  | _, _, .throws _, _ => False
  | o, _, .coAwait child rest, w =>
    child.suspendsInside false w ∨ (rest (child.eval w).1).suspendsInside o (child.eval w).2
  | o, _, .effect change rest, w => (rest w).suspendsInside o (change w)
  | o, _, .suspendAlways rest, w => o = false ∨ rest.suspendsInside o w

/-- The root's owner calls `resume()` again until it returns false. -/
def drive (s : State T World) : Option (State T World) :=
  match s.control with
  | .returned =>
    match s.heap 0 with
    | none | some ⟨_,_,.final⟩ => none
    | some _ => some { s with control := .running 0 }
  | _ => step s

def next (repeats : Bool) : State T World → Option (State T World) := if repeats then drive else step

/-- An `await_resume` that is about to run finds its child at the final suspend point. -/
def AwaitsFinished (s : State T World) : Prop :=
  ∀ handle r (promise : Promise T r) c child rest, s.control = .running handle →
    s.heap handle = some ⟨r,promise,.awaiting c child rest⟩ → ∃ awaited : Promise T c, s.heap child = some ⟨c,awaited,.final⟩

/-- A step before which every `await_resume` is in order. -/
def Drives (repeats : Bool) (s t : State T World) : Prop := AwaitsFinished s ∧ next repeats s = some t

structure Finished (s s' : State T World) (handle : Handle) {r : ReturnType} (promise : Promise T r)
    (code : Coro T World r) : Prop where
  control : s'.control = promise.continuation.elim .returned .running
  world : s'.world = (code.eval s.world).2
  fresh : s.fresh ≤ s'.fresh
  frame : ∃ storage, s'.heap handle = some ⟨r,{ promise with storage := storage },.final⟩ ∧
    Types.result storage = Types.read r (code.eval s.world).1
  others : ∀ b < s.fresh, b ≠ handle → s'.heap b = s.heap b
  pod : code.podThrows s.world ↔ r = .pod ∧ ∃ e, (code.eval s.world).1 = .error e

/-- The root waits, directly or not, for the frame at `handle`. -/
def Waits (s : State T World) (handle : Handle) : Prop :=
  handle = 0 ∨ ∃ r, ∃ promise : Promise T r, ∃ c child rest, s.heap 0 = some ⟨r,promise,.awaiting c child rest⟩ ∧
    child < s.fresh ∧ (child = handle ∨ ∀ awaited : Promise T c, s.heap child ≠ some ⟨c,awaited,.final⟩)

/-- What the body at `handle` comes to: `std::terminate`, its final suspend point,
or an `await_resume` whose child is not at its own. -/
def Comes (repeats : Bool) (s : State T World) (handle : Handle) {r : ReturnType} (promise : Promise T r)
    (code : Coro T World r) : Prop :=
  ∃ s', ReflTransGen (Drives repeats) s s' ∧
    (s'.control = .terminated ∧ code.podThrows s.world ∨
      Finished s s' handle promise code ∧ ¬ code.suspendsInside (handle = 0) s.world ∨
      ¬ AwaitsFinished s' ∧ code.suspendsInside (handle = 0) s.world)

private theorem step_running (s : State T World) (handle : Handle) {r : ReturnType} (promise : Promise T r)
    (code : Coro T World r) (running : s.control = .running handle)
    (here : s.heap handle = some ⟨r,promise,.suspended code⟩) :
    step s = some (s.advance handle promise code) := by
  simp only [step,running,here]

private theorem step_awaiting (s : State T World) (handle child : Handle) {r c : ReturnType} (promise : Promise T r)
    (awaited : Promise T c) (body : Body T World c) (rest : Except T.Exception (T.Value c) → Coro T World r)
    (running : s.control = .running handle)
    (here : s.heap handle = some ⟨r,promise,.awaiting c child rest⟩)
    (there : s.heap child = some ⟨c,awaited,body⟩) :
    step s = some (s.awaitResume handle promise child awaited.storage rest) := by
  simp only [step,running,here,there,dite_true]

/-- The result of a child at its final suspend point is passed on and its frame destroyed. -/
theorem awaitResume_passes (s : State T World) (handle child : Handle) {r c : ReturnType} (promise : Promise T r)
    (awaited : Promise T c) (rest : Except T.Exception (T.Value c) → Coro T World r)
    (o : Except T.Exception (T.Value c)) (there : s.heap child = some ⟨c,awaited,.final⟩) (known : child < s.fresh)
    (passes : (Types.result awaited.storage).outcome = some o) :
    s.awaitResume handle promise child awaited.storage rest =
      { s with
        heap := Function.update (Function.update s.heap child none) handle (some ⟨r,promise,.suspended (rest o)⟩) } := by
  obtain ⟨depth,deep⟩ := Nat.exists_eq_add_of_lt known
  have destroyed : destroy s.heap child s.fresh = Function.update s.heap child none := by
    simp only [deep,destroy,there]
  simp only [State.awaitResume,passes,destroyed]

section
variable {repeats : Bool} {s s' : State T World} {handle : Handle}

private theorem next_running (running : s.control = .running handle) : next repeats s = step s := by
  cases repeats with
  | false => rfl
  | true => simp only [next,drive,running,if_true]

private theorem awaitsFinished_suspended {r : ReturnType} {promise : Promise T r} {code : Coro T World r}
    (running : s.control = .running handle) (here : s.heap handle = some ⟨r,promise,.suspended code⟩) : AwaitsFinished s := by
  intro other r' promise' c child rest there awaits
  rw [running,Control.running.injEq] at there
  rw [← there,here] at awaits
  cases awaits

private theorem drives_running (repeats : Bool) {r : ReturnType} {promise : Promise T r} {code : Coro T World r}
    (running : s.control = .running handle) (here : s.heap handle = some ⟨r,promise,.suspended code⟩) :
    Drives repeats s (s.advance handle promise code) :=
  ⟨awaitsFinished_suspended running here,(next_running running).trans (step_running s handle promise code running here)⟩

/-- A body that has not ended stays the one that the root waits for. -/
theorem Waits.keep (waits : Waits s handle) (fresh : s.fresh ≤ s'.fresh)
    (others : ∀ b < s.fresh, b ≠ handle → s'.heap b = s.heap b) (known : handle < s.fresh) : Waits s' handle := by
  rcases waits with root | ⟨r,promise,c,child,rest,awaits,older,below⟩
  · exact .inl root
  by_cases root : handle = 0
  · exact .inl root
  refine .inr ⟨r,promise,c,child,rest,?_,Nat.lt_of_lt_of_le older fresh,?_⟩
  · rw [others 0 (Nat.zero_lt_of_lt known) (Ne.symm root)]
    exact awaits
  · by_cases same : child = handle
    · exact .inl same
    · exact .inr (others child older same ▸ below.resolve_left same)

private theorem Waits.await (waits : Waits s handle) {r c : ReturnType} (promise : Promise T r) (child : Coro T World c)
    (rest : Except T.Exception (T.Value c) → Coro T World r) (known : handle < s.fresh) :
    Waits (s.advance handle promise (.coAwait child rest)) s.fresh := by
  have older : handle ≠ s.fresh := Nat.ne_of_lt known
  by_cases root : handle = 0
  · subst root
    exact .inr ⟨r,promise,c,s.fresh,rest,by simp [State.advance,older],Nat.lt_succ_self _,.inl rfl⟩
  obtain ⟨r',promise',c',below,rest',awaits,earlier,waiting⟩ := waits.resolve_left root
  refine .inr ⟨r',promise',c',below,rest',?_,Nat.lt_succ_of_lt earlier,.inr ?_⟩
  · have positive : (0 : Nat) ≠ s.fresh := Nat.ne_of_lt (Nat.zero_lt_of_lt known)
    simpa [State.advance,positive,Ne.symm root] using awaits
  · intro awaited final
    by_cases same : below = handle
    · subst same
      simp only [State.advance,Function.update_of_ne older,Function.update_self,Option.some.injEq] at final
      injection final with type _ bodies
      subst type
      cases eq_of_heq bodies
    · simp only [State.advance,Function.update_of_ne (Nat.ne_of_lt earlier),Function.update_of_ne same] at final
      exact waiting.resolve_left same awaited final

end

private theorem comes (repeats : Bool) (r : ReturnType) (code : Coro T World r) (allowed : repeats = true ∨ code.SuspensionFree)
    (s : State T World) (handle : Handle) (promise : Promise T r) (running : s.control = .running handle)
    (here : s.heap handle = some ⟨r,promise,.suspended code⟩) (known : handle < s.fresh)
    (unset : promise.storage = T.unset r) (waits : Waits s handle) : Comes repeats s handle promise code := by
  induction code generalizing s handle with
  | coReturn v =>
    refine ⟨_,.single (drives_running repeats running here),.inr (.inl ⟨?_,by simp [Coro.suspendsInside]⟩)⟩
    refine ⟨rfl,rfl,le_rfl,⟨_,Function.update_self ..,?_⟩,?_,by simp [Coro.podThrows,Coro.eval]⟩
    · rw [unset]
      exact Types.result_returnValue _ v
    · intro b _ other
      simp [State.advance,State.finalSuspend,other]
  | throws e =>
    refine ⟨_,.single (drives_running repeats running here),.inr (.inl ⟨?_,by simp [Coro.suspendsInside]⟩)⟩
    refine ⟨rfl,rfl,le_rfl,⟨_,Function.update_self ..,?_⟩,?_,by simp [Coro.podThrows,Coro.eval]⟩
    · exact Types.result_unhandledException _ _ e
    · intro b _ other
      simp [State.advance,State.finalSuspend,other]
  | effect change rest ih =>
    have first := drives_running repeats running here
    have others : ∀ b < s.fresh, b ≠ handle → (s.advance handle promise (.effect change rest)).heap b = s.heap b := by
      intro b _ other
      simp [State.advance,other]
    obtain ⟨s',reaches,ends⟩ := ih s.world (allowed.imp_right fun free => free s.world)
      (s.advance handle promise (.effect change rest)) handle promise running (by simp [State.advance]) known unset
      (waits.keep le_rfl others known)
    refine ⟨s',.head first reaches,?_⟩
    rcases ends with aborted | ⟨finished,quiet⟩ | early
    · exact .inl aborted
    · refine .inr (.inl ⟨⟨finished.control,finished.world,finished.fresh,finished.frame,?_,finished.pod⟩,quiet⟩)
      intro b old other
      rw [finished.others b old other,others b old other]
    · exact .inr (.inr early)
  | suspendAlways rest ih =>
    have again : repeats = true := allowed.resolve_right id
    subst again
    have first := drives_running true running here
    have others : ∀ b < s.fresh, b ≠ handle → (s.advance handle promise (.suspendAlways rest)).heap b = s.heap b := by
      intro b _ other
      simp [State.advance,other]
    have still : Waits (s.advance handle promise (.suspendAlways rest)) handle := waits.keep le_rfl others known
    by_cases root : handle = 0
    · subst root
      -- `resume()` goes on with the root itself
      have second : Drives true (s.advance 0 promise (.suspendAlways rest))
          { s.advance 0 promise (.suspendAlways rest) with control := .running 0 } := by
        refine ⟨fun handle _ _ _ _ _ running _ => by simp [State.advance] at running,?_⟩
        simp [next,drive,State.advance]
      obtain ⟨s',reaches,ends⟩ := ih (.inl rfl) { s.advance 0 promise (.suspendAlways rest) with control := .running 0 } 0
        promise rfl (by simp [State.advance]) known unset (.inl rfl)
      refine ⟨s',.head first (.head second reaches),?_⟩
      rcases ends with aborted | ⟨finished,quiet⟩ | ⟨early,inside⟩
      · exact .inl aborted
      · refine .inr (.inl ⟨⟨finished.control,finished.world,finished.fresh,finished.frame,?_,finished.pod⟩,?_⟩)
        · intro b old other
          rw [finished.others b old other,← others b old other]
        · rintro (inner | inside)
          · contradiction
          · exact quiet inside
      · exact .inr (.inr ⟨early,.inr inside⟩)
    · -- `resume()` goes on with the root, which awaits a coroutine that is not at its end
      obtain ⟨r',promise',c,child,rest',awaits,older,waiting⟩ := still.resolve_left root
      have second : Drives true (s.advance handle promise (.suspendAlways rest))
          { s.advance handle promise (.suspendAlways rest) with control := .running 0 } := by
        refine ⟨fun handle _ _ _ _ _ running _ => by simp [State.advance] at running,?_⟩
        have control : (s.advance handle promise (.suspendAlways rest)).control = .returned := rfl
        simp [next,drive,control,awaits]
      refine ⟨_,.head first (.single second),.inr (.inr ⟨?_,.inl (by simpa using root)⟩)⟩
      intro careful
      obtain ⟨awaited,final⟩ := careful 0 r' promise' c child rest' rfl awaits
      by_cases same : child = handle
      · subst same
        simp only [State.advance,Function.update_self,Option.some.injEq] at final
        injection final with type _ bodies
        subst type
        cases eq_of_heq bodies
      · exact waiting.resolve_left same awaited final
  | coAwait child rest ihChild ihRest =>
    have first := drives_running repeats running here
    have older : handle ≠ s.fresh := Nat.ne_of_lt known
    have inner : decide (s.fresh = 0) = false := decide_eq_false (Nat.ne_of_gt (Nat.zero_lt_of_lt known))
    obtain ⟨middle,reaches,ends⟩ := ihChild (allowed.imp_right fun free => free.1)
      (s.advance handle promise (.coAwait child rest)) s.fresh ⟨.normal,some handle,T.unset _⟩ rfl
      (by simp [State.advance,create]) (Nat.lt_succ_self _) rfl (waits.await promise child rest known)
    rcases ends with aborted | ⟨finished,quiet⟩ | ⟨early,inside⟩
    · exact ⟨middle,.head first reaches,.inl ⟨aborted.1,.inl aborted.2⟩⟩
    rotate_left
    · rw [inner] at inside
      exact ⟨middle,.head first reaches,.inr (.inr ⟨early,.inl inside⟩)⟩
    rw [inner] at quiet
    obtain ⟨storage,there,result⟩ := finished.frame
    have back : middle.heap handle = some ⟨_,promise,.awaiting _ s.fresh rest⟩ := by
      rw [finished.others handle (Nat.lt_succ_of_lt known) older]
      simp [State.advance,older]
    have second : Drives repeats middle (middle.awaitResume handle promise s.fresh storage rest) := by
      refine ⟨?_,(next_running finished.control).trans
        (step_awaiting middle handle s.fresh promise _ _ rest finished.control back there)⟩
      intro other r' promise' c' child' rest' running' awaits
      cases finished.control.symm.trans running'
      cases back.symm.trans awaits
      exact ⟨_,there⟩
    have newer : s.fresh < middle.fresh := Nat.lt_of_lt_of_le (Nat.lt_succ_self s.fresh) finished.fresh
    have world : middle.world = (child.eval s.world).2 := finished.world
    have lost := finished.pod
    change Types.result storage = Types.read _ (child.eval s.world).1 at result
    change child.podThrows s.world ↔ _ = ReturnType.pod ∧ ∃ e, (child.eval s.world).1 = .error e at lost
    by_cases throws : child.podThrows s.world
    · obtain ⟨pod,e,error⟩ := lost.mp throws
      refine ⟨_,.head first (reaches.tail second),.inl ⟨?_,.inl throws⟩⟩
      simp [State.awaitResume,result,error,Types.read,pod,Result.outcome]
    have passes := (Types.read_outcome _ _).mpr (lost.not.mp throws)
    rw [← result] at passes
    rw [awaitResume_passes middle handle s.fresh promise _ rest _ there newer passes] at second
    have others : ∀ b < s.fresh, b ≠ handle → (Function.update (Function.update middle.heap s.fresh none) handle
        (some ⟨_,promise,.suspended (rest (child.eval s.world).1)⟩)) b = s.heap b := by
      intro b old other
      simp only [Function.update_of_ne other,Function.update_of_ne (Nat.ne_of_lt old)]
      rw [finished.others b (Nat.lt_succ_of_lt old) (Nat.ne_of_lt old)]
      simp [State.advance,other,Nat.ne_of_lt old]
    obtain ⟨last,reaches',ends⟩ := ihRest (child.eval s.world).1 (allowed.imp_right fun free => free.2 _)
      { middle with
        heap := Function.update (Function.update middle.heap s.fresh none) handle
          (some ⟨_,promise,.suspended (rest (child.eval s.world).1)⟩) }
      handle promise finished.control (by simp) (Nat.lt_trans known newer) unset
      (waits.keep (Nat.le_of_lt newer) others known)
    refine ⟨last,.head first (reaches.trans (.head second reaches')),?_⟩
    rcases ends with aborted | ⟨finished',quiet'⟩ | ⟨early,inside⟩
    · exact .inl ⟨aborted.1,.inr (world ▸ aborted.2)⟩
    · refine .inr (.inl ⟨⟨finished'.control,?_,?_,?_,?_,?_⟩,?_⟩)
      · rw [finished'.world]
        simp only [world,Coro.eval]
      · exact Nat.le_trans (Nat.le_of_lt newer) finished'.fresh
      · simpa only [world,Coro.eval] using finished'.frame
      · intro b old other
        exact (finished'.others b (Nat.lt_trans old newer) other).trans (others b old other)
      · simpa only [Coro.podThrows,Coro.eval,throws,false_or,world] using finished'.pod
      · rintro (inside | inside)
        · exact quiet inside
        · exact quiet' (world ▸ inside)
    · exact .inr (.inr ⟨early,.inr (world ▸ inside)⟩)

theorem start_comes (repeats : Bool) (r : ReturnType) (root : Coro T World r) (w : World)
    (allowed : repeats = true ∨ root.SuspensionFree) : Comes repeats (start root w) 0 ⟨.normal,none,T.unset r⟩ root :=
  comes repeats r root allowed (start root w) 0 _ rfl (by simp [start,create]) Nat.zero_lt_one rfl (.inl rfl)

end TinyCoro.Task
