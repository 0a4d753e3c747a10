import TinyCoro.Task.Lifecycle

/-! The frames of a tree whose coroutines outlive the suspensions of their
children. Below each unfinished frame at most one child is unfinished, and the
frame whose handle the engine holds is kept alive by a parent that will suspend. -/
namespace TinyCoro.Task.Lifecycle
open Library

section
variable (s : State) (temporaries : List Handle)

@[simp,grind =] theorem endTemporaries_state : (s.endTemporaries temporaries).state = s.state := by
  induction temporaries <;> simp_all [State.endTemporaries,State.endTask,State.destroy]

@[simp,grind =] theorem endTemporaries_continuation : (s.endTemporaries temporaries).continuation = s.continuation := by
  induction temporaries <;> simp_all [State.endTemporaries,State.endTask,State.destroy]

@[simp,grind =] theorem endTemporaries_body : (s.endTemporaries temporaries).body = s.body := by
  induction temporaries <;> simp_all [State.endTemporaries,State.endTask,State.destroy]

@[simp,grind =] theorem endTemporaries_fresh : (s.endTemporaries temporaries).fresh = s.fresh := by
  induction temporaries <;> simp_all [State.endTemporaries,State.endTask,State.destroy]

@[simp,grind =] theorem endTemporaries_parked : (s.endTemporaries temporaries).parked = s.parked := by
  induction temporaries <;> simp_all [State.endTemporaries,State.endTask,State.destroy]

@[simp,grind =] theorem endTemporaries_taskQueue : (s.endTemporaries temporaries).taskQueue = s.taskQueue := by
  induction temporaries <;> simp_all [State.endTemporaries,State.endTask,State.destroy]

@[simp,grind =] theorem endTemporaries_pc : (s.endTemporaries temporaries).pc = s.pc := by
  induction temporaries <;> simp_all [State.endTemporaries,State.endTask,State.destroy]

@[simp,grind =] theorem endTemporaries_finished : (s.endTemporaries temporaries).finished = s.finished := by
  induction temporaries <;> simp_all [State.endTemporaries,State.endTask,State.destroy]

private theorem endTemporaries_cons (a : Handle) : s.endTemporaries (a::temporaries) = (s.endTemporaries temporaries).endTask a := rfl

@[grind =] theorem endTemporaries_allocated (h : Handle) :
    (s.endTemporaries temporaries).allocated h = if h ∈ temporaries then false else s.allocated h := by
  induction temporaries with
  | nil => rfl
  | cons a rest ih =>
    rw [endTemporaries_cons]
    simp only [State.endTask,State.destroy,List.mem_cons]
    by_cases same : h = a
    · rw [same,Function.update_self,if_pos (.inl rfl)]
    · rw [Function.update_of_ne same,ih]
      simp only [same,false_or]

@[grind =] theorem endTemporaries_owned (h : Handle) :
    (s.endTemporaries temporaries).owned h = if h ∈ temporaries then false else s.owned h := by
  induction temporaries with
  | nil => rfl
  | cons a rest ih =>
    rw [endTemporaries_cons]
    simp only [State.endTask,State.destroy,List.mem_cons]
    by_cases same : h = a
    · rw [same,Function.update_self,if_pos (.inl rfl)]
    · rw [Function.update_of_ne same,ih]
      simp only [same,false_or]

@[grind =] theorem endTemporaries_destructions (h : Handle) :
    (s.endTemporaries temporaries).destructions h = s.destructions h + temporaries.count h := by
  induction temporaries with
  | nil => rfl
  | cons a rest ih =>
    rw [endTemporaries_cons]
    simp only [State.endTask,State.destroy,List.count_cons]
    by_cases same : h = a
    · rw [same,Function.update_self,← same,ih]
      simp [Nat.add_assoc]
    · rw [Function.update_of_ne same,ih]
      simp [Ne.symm same]

private theorem endTemporaries_misuse (distinct : temporaries.Nodup) (alive : ∀ h ∈ temporaries, s.allocated h = true) :
    (s.endTemporaries temporaries).misuse = s.misuse := by
  induction temporaries with
  | nil => rfl
  | cons a rest ih =>
    have below := ih distinct.of_cons fun h member => alive h (List.mem_cons_of_mem _ member)
    have here := endTemporaries_allocated s rest a
    have absent := (List.nodup_cons.mp distinct).1
    rw [endTemporaries_cons]
    simp only [State.endTask,State.destroy,below,here,absent,if_false]
    simp [alive a]

end

/-- The handles that will come back to the engine. -/
def State.waiting (s : State) : List Handle := s.parked ++ s.taskQueue

def State.active (s : State) : Option Handle :=
  match s.pc with
  | .running _ current => some current
  | _ => s.waiting.head?

/-- A frame that stays alive until its parent has suspended. -/
def State.Held (s : State) (h : Handle) : Prop :=
  s.allocated h = true ∧ ∀ g, s.continuation h = some g → ∃ code, s.body g = some code ∧ code.pending = true

structure Frames (s : State) : Prop where
  known : ∀ h, s.allocated h = true → h < s.fresh
  unfinished : ∀ h code, s.body h = some code → s.allocated h = true
  childState : ∀ h g, s.allocated h = true → s.continuation h = some g → s.state h = .normal
  childOwned : ∀ h g, s.allocated h = true → s.continuation h = some g → s.owned h = true
  childLater : ∀ h g, s.allocated h = true → s.continuation h = some g → g < h
  childParent : ∀ h g, s.allocated h = true → s.continuation h = some g → s.body g ≠ none
  childTemporary : ∀ h g, s.allocated h = true → s.continuation h = some g → h ∈ s.temporaries g
  orphan : ∀ h, s.allocated h = true → s.continuation h = none → h = 0
  rootContinuation : s.continuation 0 = none
  rootState : s.state 0 = .detach
  rootOwned : s.owned 0 = false
  temporaryAllocated : ∀ g h, h ∈ s.temporaries g → s.allocated h = true
  temporaryParent : ∀ g h, h ∈ s.temporaries g → s.continuation h = some g
  distinct : ∀ g, (s.temporaries g).Nodup
  ended : ∀ h, s.body h = none → s.temporaries h = []
  only : ∀ h h', s.body h ≠ none → s.body h' ≠ none → s.continuation h = s.continuation h' → h = h'
  outlives : ∀ h code, s.body h = some code → code.outlives = true
  suspends : ∀ h g code code', s.body h = some code → code.suspends = true → s.continuation h = some g →
    s.body g = some code' → code'.pending = true
  alive : ∀ h, s.allocated h = true → s.destructions h = 0
  unborn : ∀ h, s.fresh ≤ h → s.destructions h = 0
  destroyed : ∀ h, h < s.fresh → s.allocated h = false → s.destructions h = 1
  born : 0 < s.fresh
  rootFinished : s.finished 0 = true ↔ s.body 0 = none
  sound : s.misuse = false

structure Control (s : State) : Prop where
  active : ∀ c, s.active = some c → s.body c ≠ none
  tip : ∀ c h, s.active = some c → s.body h ≠ none → s.continuation h ≠ some c
  single : s.waiting.length ≤ 1
  held : ∀ h ∈ s.waiting, s.Held h
  running : ∀ popped c, s.pc = .running popped c → s.waiting = [] ∧ s.Held popped
  done : ∀ popped, s.pc = .done popped → s.allocated popped = true ∧ (s.finished 0 = true → popped = 0)
  clean : ∀ popped, s.pc = .clean popped → s.allocated popped = true ∧ s.body popped = none ∧
    (s.finished 0 = true → popped = 0)
  idle : s.pc = .idle → s.finished 0 = true → s.allocated 0 = false
  finished : s.finished 0 = true → s.waiting = []

section
variable {s : State} {popped c : Handle} {child rest : Coroutine}

theorem Frames.goesOn (fs : Frames s) {code : Coroutine} (here : s.body c = some code)
    (tip : ∀ h, s.body h ≠ none → s.continuation h ≠ some c) (outlives : rest.outlives = true)
    (suspends : rest.suspends = true → code.suspends = true) :
    Frames { s with body := Function.update s.body c (some rest) } := by
  have now : Function.update s.body c (some rest) c = some rest := Function.update_self ..
  have others : ∀ h, h ≠ c → Function.update s.body c (some rest) h = s.body h := fun h other => Function.update_of_ne other ..
  have none_iff : ∀ h, Function.update s.body c (some rest) h = none ↔ s.body h = none := by
    intro h
    by_cases same : h = c
    · subst same
      simp [here]
    · rw [others h same]
  have before : ∀ h next, Function.update s.body c (some rest) h = some next → h = c ∧ next = rest ∨ h ≠ c ∧ s.body h = some next := by
    intro h next body
    by_cases same : h = c
    · subst same
      exact .inl ⟨rfl,(Option.some.inj (now.symm.trans body)).symm⟩
    · exact .inr ⟨same,(others h same).symm.trans body⟩
  refine { fs with
    unfinished := ?_, childParent := ?_, ended := ?_, only := ?_, outlives := ?_, suspends := ?_, rootFinished := ?_ }
  · intro h next body
    rcases before h next body with ⟨rfl,_⟩ | ⟨_,body⟩
    · exact fs.unfinished h code here
    · exact fs.unfinished h next body
  · intro h g lives above gone
    exact fs.childParent h g lives above ((none_iff g).mp gone)
  · intro h gone
    exact fs.ended h ((none_iff h).mp gone)
  · intro h h' first second
    exact fs.only h h' (fun gone => first ((none_iff h).mpr gone)) fun gone => second ((none_iff h').mpr gone)
  · intro h next body
    rcases before h next body with ⟨_,rfl⟩ | ⟨_,body⟩
    · exact outlives
    · exact fs.outlives h next body
  · intro h g next next' body sleeps above body'
    have unfinished : s.body h ≠ none := fun gone => by simp [(none_iff h).mpr gone] at body
    have apart : g ≠ c := fun same => tip h unfinished (same ▸ above)
    dsimp only at body'
    rw [others g apart] at body'
    rcases before h next body with ⟨rfl,rfl⟩ | ⟨_,body⟩
    · exact fs.suspends h g code next' here (suspends sleeps) above body'
    · exact fs.suspends h g next next' body sleeps above body'
  · exact fs.rootFinished.trans (none_iff 0).symm

theorem Frames.endTemporaries (fs : Frames s) (tip : ∀ h, s.body h ≠ none → s.continuation h ≠ some c) :
    Frames { s.endTemporaries (s.temporaries c) with temporaries := Function.update s.temporaries c [] } := by
  have allocated := endTemporaries_allocated s (s.temporaries c)
  have owned := endTemporaries_owned s (s.temporaries c)
  have destructions := endTemporaries_destructions s (s.temporaries c)
  have lived : ∀ h, (s.endTemporaries (s.temporaries c)).allocated h = true → s.allocated h = true ∧ h ∉ s.temporaries c := by
    intro h lives
    rw [allocated] at lives
    split at lives
    next => contradiction
    next outside => exact ⟨lives,outside⟩
  have lives : ∀ h, s.allocated h = true → h ∉ s.temporaries c → (s.endTemporaries (s.temporaries c)).allocated h = true := by
    intro h alive outside
    rw [allocated,if_neg outside]
    exact alive
  have ended : ∀ h, s.body h ≠ none → h ∉ s.temporaries c := fun h unfinished member =>
    tip h unfinished (fs.temporaryParent c h member)
  have temporary : ∀ g h, h ∈ Function.update s.temporaries c [] g → g ≠ c ∧ h ∈ s.temporaries g := by
    intro g h member
    by_cases same : g = c
    · subst same
      simp at member
    · rw [Function.update_of_ne same] at member
      exact ⟨same,member⟩
  constructor
  all_goals simp only [endTemporaries_state,endTemporaries_continuation,endTemporaries_body,endTemporaries_fresh,
    endTemporaries_finished]
  case known => exact fun h alive => fs.known h (lived h alive).1
  case unfinished => exact fun h code body => lives h (fs.unfinished h code body) (ended h (by simp [body]))
  case childState => exact fun h g alive => fs.childState h g (lived h alive).1
  case childOwned =>
    intro h g alive above
    rw [owned,if_neg (lived h alive).2]
    exact fs.childOwned h g (lived h alive).1 above
  case childLater => exact fun h g alive => fs.childLater h g (lived h alive).1
  case childParent => exact fun h g alive => fs.childParent h g (lived h alive).1
  case childTemporary =>
    intro h g alive above
    have member := fs.childTemporary h g (lived h alive).1 above
    by_cases same : g = c
    · subst same
      exact absurd member (lived h alive).2
    · rwa [Function.update_of_ne same]
  case orphan => exact fun h alive => fs.orphan h (lived h alive).1
  case rootContinuation => exact fs.rootContinuation
  case rootState => exact fs.rootState
  case rootOwned =>
    rw [owned]
    split
    next => rfl
    next => exact fs.rootOwned
  case temporaryAllocated =>
    intro g h member
    obtain ⟨apart,member⟩ := temporary g h member
    refine lives h (fs.temporaryAllocated g h member) fun member' => apart ?_
    exact Option.some.inj ((fs.temporaryParent g h member).symm.trans (fs.temporaryParent c h member'))
  case temporaryParent => exact fun g h member => fs.temporaryParent g h (temporary g h member).2
  case distinct =>
    intro g
    by_cases same : g = c
    · subst same
      simp
    · rw [Function.update_of_ne same]
      exact fs.distinct g
  case ended =>
    intro h gone
    by_cases same : h = c
    · subst same
      simp
    · rw [Function.update_of_ne same]
      exact fs.ended h gone
  case only => exact fs.only
  case outlives => exact fs.outlives
  case suspends => exact fs.suspends
  case alive =>
    intro h alive
    rw [destructions,List.count_eq_zero_of_not_mem (lived h alive).2]
    exact fs.alive h (lived h alive).1
  case unborn =>
    intro h new
    have outside : h ∉ s.temporaries c := fun member =>
      Nat.lt_irrefl _ (Nat.lt_of_lt_of_le (fs.known h (fs.temporaryAllocated c h member)) new)
    rw [destructions,List.count_eq_zero_of_not_mem outside]
    exact fs.unborn h new
  case destroyed =>
    intro h old gone
    rw [destructions]
    by_cases member : h ∈ s.temporaries c
    · rw [List.count_eq_one_of_mem (fs.distinct c) member,fs.alive h (fs.temporaryAllocated c h member)]
    · rw [List.count_eq_zero_of_not_mem member]
      rw [allocated,if_neg member] at gone
      exact fs.destroyed h old gone
  case born => exact fs.born
  case rootFinished => exact fs.rootFinished
  case sound =>
    rw [endTemporaries_misuse s (s.temporaries c) (fs.distinct c) (fs.temporaryAllocated c)]
    exact fs.sound

theorem Frames.returns (fs : Frames s) (temporaries : s.temporaries c = []) :
    Frames { s with body := Function.update s.body c none, finished := Function.update s.finished c true } := by
  have before : ∀ h code, Function.update s.body c none h = some code → s.body h = some code := by
    intro h code body
    by_cases same : h = c
    · subst same
      simp at body
    · rwa [Function.update_of_ne same] at body
  have unfinished : ∀ h, Function.update s.body c none h ≠ none → s.body h ≠ none := by
    intro h lives
    obtain ⟨code,body⟩ := Option.ne_none_iff_exists'.mp lives
    simp [before h code body]
  refine { fs with
    unfinished := ?_, childParent := ?_, ended := ?_, only := ?_, outlives := ?_, suspends := ?_, rootFinished := ?_ }
  · exact fun h code body => fs.unfinished h code (before h code body)
  · intro h g lives above
    have apart : g ≠ c := by
      rintro rfl
      have member := fs.childTemporary h g lives above
      simp [temporaries] at member
    dsimp only
    rw [Function.update_of_ne apart]
    exact fs.childParent h g lives above
  · intro h gone
    by_cases same : h = c
    · subst same
      exact temporaries
    · exact fs.ended h ((Function.update_of_ne same ..).symm.trans gone)
  · exact fun h h' first second => fs.only h h' (unfinished h first) (unfinished h' second)
  · exact fun h code body => fs.outlives h code (before h code body)
  · exact fun h g code code' body sleeps above body' => fs.suspends h g code code' (before h code body) sleeps above (before g code' body')
  · dsimp only
    by_cases same : 0 = c
    · subst same
      simp
    · rw [Function.update_of_ne same,Function.update_of_ne same]
      exact fs.rootFinished

private theorem Frames.bears (fs : Frames s) (unfinished : s.body c ≠ none) (tip : ∀ h, s.body h ≠ none → s.continuation h ≠ some c)
    (outlives : child.outlives = true) (suspends : ∀ code, s.body c = some code → child.suspends = true → code.pending = true) :
    Frames { s with
      allocated := Function.update s.allocated s.fresh true
      state := Function.update s.state s.fresh .normal
      continuation := Function.update s.continuation s.fresh (some c)
      body := Function.update s.body s.fresh (some child)
      temporaries := Function.update (Function.update s.temporaries c (s.temporaries c ++ [s.fresh])) s.fresh []
      fresh := s.fresh + 1
      owned := Function.update s.owned s.fresh true } := by
  have older : ∀ h, s.allocated h = true → h ≠ s.fresh := fun h alive same =>
    Nat.lt_irrefl _ (same ▸ fs.known h alive)
  have living : ∀ h, s.body h ≠ none → s.allocated h = true := fun h lives =>
    fs.unfinished h _ (Option.ne_none_iff_exists'.mp lives).choose_spec
  have parent : c ≠ s.fresh := older c (living c unfinished)
  have root : 0 ≠ s.fresh := Nat.ne_of_lt fs.born
  have temporaries : ∀ g h, h ∈ Function.update (Function.update s.temporaries c (s.temporaries c ++ [s.fresh])) s.fresh [] g →
      g ≠ s.fresh ∧ (h ∈ s.temporaries g ∨ g = c ∧ h = s.fresh) := by
    intro g h member
    by_cases new : g = s.fresh
    · subst new
      simp at member
    · rw [Function.update_of_ne new] at member
      by_cases same : g = c
      · subst same
        simp only [Function.update_self,List.mem_append,List.mem_singleton] at member
        exact ⟨new,member.imp_right fun new => ⟨rfl,new⟩⟩
      · rw [Function.update_of_ne same] at member
        exact ⟨new,.inl member⟩
  have above : ∀ h g, s.allocated h = true → s.continuation h = some g → g ≠ s.fresh := fun h g alive above =>
    Nat.ne_of_lt (Nat.lt_trans (fs.childLater h g alive above) (fs.known h alive))
  -- a frame is the new one or it was allocated before
  have born : ∀ h, Function.update s.allocated s.fresh true h = true → h = s.fresh ∨ h ≠ s.fresh ∧ s.allocated h = true := by
    intro h alive
    by_cases new : h = s.fresh
    · exact .inl new
    · rw [Function.update_of_ne new] at alive
      exact .inr ⟨new,alive⟩
  constructor
  all_goals dsimp only
  case known =>
    intro h alive
    rcases born h alive with rfl | ⟨_,alive⟩
    · exact Nat.lt_succ_self _
    · exact Nat.lt_succ_of_lt (fs.known h alive)
  case unfinished =>
    intro h code body
    by_cases new : h = s.fresh
    · rw [new,Function.update_self]
    · rw [Function.update_of_ne new] at body ⊢
      exact fs.unfinished h code body
  case childState =>
    intro h g alive linked
    rcases born h alive with rfl | ⟨new,alive⟩
    · exact Function.update_self ..
    · rw [Function.update_of_ne new] at linked ⊢
      exact fs.childState h g alive linked
  case childOwned =>
    intro h g alive linked
    rcases born h alive with rfl | ⟨new,alive⟩
    · exact Function.update_self ..
    · rw [Function.update_of_ne new] at linked ⊢
      exact fs.childOwned h g alive linked
  case childLater =>
    intro h g alive linked
    rcases born h alive with rfl | ⟨new,alive⟩
    · rw [Function.update_self] at linked
      exact Option.some.inj linked ▸ fs.known c (living c unfinished)
    · rw [Function.update_of_ne new] at linked
      exact fs.childLater h g alive linked
  case childParent =>
    intro h g alive linked
    rcases born h alive with rfl | ⟨new,alive⟩
    · rw [Function.update_self] at linked
      rw [← Option.some.inj linked,Function.update_of_ne parent]
      exact unfinished
    · rw [Function.update_of_ne new] at linked
      rw [Function.update_of_ne (above h g alive linked)]
      exact fs.childParent h g alive linked
  case childTemporary =>
    intro h g alive linked
    rcases born h alive with rfl | ⟨new,alive⟩
    · rw [Function.update_self] at linked
      rw [← Option.some.inj linked,Function.update_of_ne parent,Function.update_self]
      exact List.mem_append_right _ (List.mem_singleton_self _)
    · rw [Function.update_of_ne new] at linked
      rw [Function.update_of_ne (above h g alive linked)]
      have member := fs.childTemporary h g alive linked
      by_cases same : g = c
      · subst same
        rw [Function.update_self]
        exact List.mem_append_left _ member
      · rwa [Function.update_of_ne same]
  case orphan =>
    intro h alive linked
    rcases born h alive with rfl | ⟨new,alive⟩
    · simp at linked
    · rw [Function.update_of_ne new] at linked
      exact fs.orphan h alive linked
  case rootContinuation => exact (Function.update_of_ne root ..).trans fs.rootContinuation
  case rootState => exact (Function.update_of_ne root ..).trans fs.rootState
  case rootOwned => exact (Function.update_of_ne root ..).trans fs.rootOwned
  case temporaryAllocated =>
    intro g h member
    obtain ⟨_,member | ⟨_,rfl⟩⟩ := temporaries g h member
    · have alive := fs.temporaryAllocated g h member
      rwa [Function.update_of_ne (older h alive)]
    · exact Function.update_self ..
  case temporaryParent =>
    intro g h member
    obtain ⟨_,member | ⟨rfl,rfl⟩⟩ := temporaries g h member
    · rw [Function.update_of_ne (older h (fs.temporaryAllocated g h member))]
      exact fs.temporaryParent g h member
    · exact Function.update_self ..
  case distinct =>
    intro g
    by_cases new : g = s.fresh
    · subst new
      simp
    rw [Function.update_of_ne new]
    by_cases same : g = c
    · subst same
      rw [Function.update_self]
      have absent : s.fresh ∉ s.temporaries g := fun member => older _ (fs.temporaryAllocated g _ member) rfl
      exact (fs.distinct g).append (List.nodup_singleton _) (List.disjoint_singleton.mpr absent)
    · rw [Function.update_of_ne same]
      exact fs.distinct g
  case ended =>
    intro h gone
    by_cases new : h = s.fresh
    · subst new
      simp
    · rw [Function.update_of_ne new] at gone ⊢
      have other : h ≠ c := fun same => unfinished (same ▸ gone)
      rw [Function.update_of_ne other]
      exact fs.ended h gone
  case only =>
    -- no other frame below `c` is unfinished
    intro h h' first second same
    by_cases new : h = s.fresh <;> by_cases new' : h' = s.fresh
    · exact new.trans new'.symm
    · subst new
      rw [Function.update_of_ne new'] at second same
      exact absurd (same.symm.trans (Function.update_self ..)) (tip h' second)
    · subst new'
      rw [Function.update_of_ne new] at first same
      exact absurd (same.trans (Function.update_self ..)) (tip h first)
    · rw [Function.update_of_ne new] at first same
      rw [Function.update_of_ne new'] at second same
      exact fs.only h h' first second same
  case outlives =>
    intro h code body
    by_cases new : h = s.fresh
    · subst new
      rw [Function.update_self] at body
      exact Option.some.inj body ▸ outlives
    · rw [Function.update_of_ne new] at body
      exact fs.outlives h code body
  case suspends =>
    intro h g code code' body sleeps linked body'
    by_cases new : h = s.fresh
    · subst new
      rw [Function.update_self] at body linked
      rw [← Option.some.inj linked,Function.update_of_ne parent] at body'
      exact suspends code' body' (Option.some.inj body ▸ sleeps)
    · rw [Function.update_of_ne new] at body linked
      rw [Function.update_of_ne (above h g (fs.unfinished h code body) linked)] at body'
      exact fs.suspends h g code code' body sleeps linked body'
  case alive =>
    intro h alive
    rcases born h alive with rfl | ⟨_,alive⟩
    · exact fs.unborn s.fresh (Nat.le_refl _)
    · exact fs.alive h alive
  case unborn => exact fun h new => fs.unborn h (Nat.le_of_succ_le new)
  case destroyed =>
    intro h old gone
    by_cases new : h = s.fresh
    · subst new
      simp at gone
    · rw [Function.update_of_ne new] at gone
      exact fs.destroyed h (Nat.lt_of_le_of_ne (Nat.lt_succ_iff.mp old) new) gone
  case born => exact Nat.succ_pos _
  case rootFinished => rw [Function.update_of_ne root]; exact fs.rootFinished
  case sound => exact fs.sound

theorem Frames.suspend (fs : Frames s) (here : s.body c = some (.suspend rest))
    (tip : ∀ h, s.body h ≠ none → s.continuation h ≠ some c) : Frames (s.advance popped c (.suspend rest)) := by
  have outlives : rest.outlives = true := fs.outlives c (.suspend rest) here
  have after := fs.goesOn here tip outlives fun _ => rfl
  exact { after with }

theorem Frames.semicolon (fs : Frames s) (here : s.body c = some (.semicolon rest))
    (tip : ∀ h, s.body h ≠ none → s.continuation h ≠ some c) : Frames (s.advance popped c (.semicolon rest)) := by
  have before := fs.endTemporaries tip
  have outlives : rest.outlives = true := fs.outlives c (.semicolon rest) here
  have after := before.goesOn ((congrFun (endTemporaries_body ..) c).trans here) (by simpa using tip) outlives id
  simp only [endTemporaries_body] at after
  exact { after with }

theorem Frames.coReturn (fs : Frames s)
    (tip : ∀ h, s.body h ≠ none → s.continuation h ≠ some c) : Frames (s.advance popped c .coReturn) := by
  have after := (fs.endTemporaries tip).returns (Function.update_self ..)
  simp only [endTemporaries_body,endTemporaries_finished] at after
  exact { after with }

theorem Frames.coAwait (fs : Frames s) (here : s.body c = some (.coAwait child rest))
    (tip : ∀ h, s.body h ≠ none → s.continuation h ≠ some c) : Frames (s.advance popped c (.coAwait child rest)) := by
  have ordered := fs.outlives c _ here
  simp only [Coroutine.outlives,Bool.and_eq_true,Bool.or_eq_true,Bool.not_eq_true'] at ordered
  obtain ⟨⟨below,outlives⟩,covered⟩ := ordered
  have later : Frames { s with body := Function.update s.body c (some rest) } := by
    refine fs.goesOn here tip outlives fun sleeps => ?_
    simp [Coroutine.suspends,sleeps]
  have running : Function.update s.body c (some rest) c ≠ none := by simp
  have last : ∀ h, Function.update s.body c (some rest) h ≠ none → s.continuation h ≠ some c := by
    intro h lives
    by_cases same : h = c
    · exact same ▸ tip c (by simp [here])
    · exact tip h (by simpa [same] using lives)
  have waits : ∀ code, Function.update s.body c (some rest) c = some code → child.suspends = true → code.pending = true := by
    intro code body sleeps
    rw [Function.update_self] at body
    simpa [sleeps,Option.some.inj body] using covered
  have after := later.bears running last below waits
  exact { after with }

private theorem Frames.root_last (fs : Frames s) (tip : ∀ h, s.body h ≠ none → s.continuation h ≠ some 0) (h : Handle)
    (unfinished : s.body h ≠ none) : h = 0 := by
  induction h using Nat.strong_induction_on with
  | _ h ih =>
    obtain ⟨code,here⟩ := Option.ne_none_iff_exists'.mp unfinished
    have allocated := fs.unfinished h code here
    cases above : s.continuation h with
    | none => exact fs.orphan h allocated above
    | some g =>
      have first := ih g (fs.childLater h g allocated above) (fs.childParent h g allocated above)
      exact absurd (first ▸ above) (tip h unfinished)

/-- `clean` destroys the finished root, which no task object owns. -/
theorem Frames.clean (fs : Frames s) (ended : s.body popped = none) (allocated : s.allocated popped = true)
    (detached : s.state popped = .detach) :
    Frames { s.destroy popped with pc := .idle, misuse := (s.destroy popped).misuse || s.owned popped } := by
  have root : popped = 0 := by
    cases above : s.continuation popped with
    | none => exact fs.orphan popped allocated above
    | some g => simp [fs.childState popped g allocated above] at detached
  subst root
  -- only the root is without a parent, so everything below a frame that is left stays
  have child : ∀ h g, s.continuation h = some g → h ≠ 0 := by
    intro h g above same
    rw [same,fs.rootContinuation] at above
    contradiction
  have lived : ∀ h, Function.update s.allocated 0 false h = true → h ≠ 0 ∧ s.allocated h = true := by
    intro h alive
    by_cases same : h = 0
    · rw [same,Function.update_self] at alive
      contradiction
    · rw [Function.update_of_ne same] at alive
      exact ⟨same,alive⟩
  refine { fs with
    known := ?_, unfinished := ?_, childState := ?_, childOwned := ?_, childLater := ?_, childParent := ?_,
    childTemporary := ?_, orphan := ?_, temporaryAllocated := ?_, alive := ?_, unborn := ?_, destroyed := ?_, sound := ?_ }
  · exact fun h alive => fs.known h (lived h alive).2
  · intro h code body
    change s.body h = some code at body
    have other : h ≠ 0 := by
      intro same
      rw [same,ended] at body
      contradiction
    exact (Function.update_of_ne other ..).trans (fs.unfinished h code body)
  · exact fun h g alive => fs.childState h g (lived h alive).2
  · exact fun h g alive => fs.childOwned h g (lived h alive).2
  · exact fun h g alive => fs.childLater h g (lived h alive).2
  · exact fun h g alive => fs.childParent h g (lived h alive).2
  · exact fun h g alive => fs.childTemporary h g (lived h alive).2
  · exact fun h alive => fs.orphan h (lived h alive).2
  · intro g h member
    exact (Function.update_of_ne (child h g (fs.temporaryParent g h member)) ..).trans (fs.temporaryAllocated g h member)
  · intro h alive
    obtain ⟨other,alive⟩ := lived h alive
    exact (Function.update_of_ne other ..).trans (fs.alive h alive)
  · intro h new
    have other : h ≠ 0 := Nat.ne_of_gt (Nat.lt_of_lt_of_le fs.born new)
    exact (Function.update_of_ne other ..).trans (fs.unborn h new)
  · intro h old gone
    simp only [State.destroy] at gone ⊢
    by_cases same : h = 0
    · rw [same,Function.update_self,fs.alive 0 allocated]
    · rw [Function.update_of_ne same] at gone ⊢
      exact fs.destroyed h old gone
  · simp [State.destroy,fs.sound,allocated,fs.rootOwned]

private theorem Frames.root_unfinished (fs : Frames s) (unfinished : s.body c ≠ none) : s.finished 0 = false := by
  rw [Bool.eq_false_iff]
  intro finished
  have ended := fs.rootFinished.mp finished
  have last := fs.root_last (fun h lives above => fs.childParent h 0
    (fs.unfinished h _ (Option.ne_none_iff_exists'.mp lives).choose_spec) above ended) c unfinished
  exact unfinished (last ▸ ended)

private theorem control_running (pc : s.pc = .running popped c) (empty : s.waiting = []) (held : s.Held popped)
    (unfinished : s.body c ≠ none) (tip : ∀ h, s.body h ≠ none → s.continuation h ≠ some c)
    (running : s.finished 0 = false) : Control s := by
  have active : ∀ d, s.active = some d → d = c := by simp [State.active,pc]
  constructor
  case tip => intro d h here; exact active d here ▸ tip h
  all_goals simp_all

/-- Between two resumptions the innermost frame is the one that comes back. -/
theorem control_stopped (pc : ∀ p c, s.pc ≠ .running p c) (single : s.waiting.length ≤ 1)
    (held : ∀ h ∈ s.waiting, s.Held h) (unfinished : ∀ h ∈ s.waiting, s.body h ≠ none)
    (tip : ∀ c ∈ s.waiting, ∀ h, s.body h ≠ none → s.continuation h ≠ some c)
    (done : ∀ popped, s.pc = .done popped → s.allocated popped = true ∧ (s.finished 0 = true → popped = 0))
    (clean : ∀ popped, s.pc = .clean popped → s.allocated popped = true ∧ s.body popped = none ∧
      (s.finished 0 = true → popped = 0))
    (idle : s.pc = .idle → s.finished 0 = true → s.allocated 0 = false)
    (finished : s.finished 0 = true → s.waiting = []) : Control s := by
  have active : s.active = s.waiting.head? := by
    unfold State.active
    split
    next popped c here => exact absurd here (pc popped c)
    next => rfl
  refine ⟨?_,?_,single,held,?_,done,clean,idle,finished⟩
  · intro c here
    exact unfinished c (List.mem_of_head? (active ▸ here))
  · intro c h here
    exact tip c (List.mem_of_head? (active ▸ here)) h
  · intro popped c here
    exact absurd here (pc popped c)

theorem Control.inside (cs : Control s) (pc : s.pc = .running popped c) :
    s.waiting = [] ∧ s.Held popped ∧ s.body c ≠ none ∧ ∀ h, s.body h ≠ none → s.continuation h ≠ some c := by
  have active : s.active = some c := by simp [State.active,pc]
  obtain ⟨empty,held⟩ := cs.running popped c pc
  exact ⟨empty,held,cs.active c active,fun h => cs.tip c h active⟩

theorem Control.suspend (fs : Frames s) (cs : Control s) (pc : s.pc = .running popped c)
    (here : s.body c = some (.suspend rest)) : Control (s.advance popped c (.suspend rest)) := by
  obtain ⟨empty,⟨allocated,_⟩,unfinished,tip⟩ := cs.inside pc
  have running := fs.root_unfinished unfinished
  have back : (s.advance popped c (.suspend rest)).waiting = [c] := by
    simp_all [State.advance,State.waiting]
  have parent : ∀ g, s.continuation c = some g → g ≠ c := fun g above => fun same => tip c unfinished (same ▸ above)
  have outer := fun g code above => fs.suspends c g _ code here rfl above
  have lives := fs.unfinished c _ here
  have childParent := fs.childParent
  apply control_stopped
  · simp [State.advance]
  · simp [back]
  · intro h member
    rw [back,List.mem_singleton] at member
    subst h
    refine ⟨lives,fun g above => ?_⟩
    obtain ⟨code,body⟩ := Option.ne_none_iff_exists'.mp (childParent c g lives above)
    exact ⟨code,by simp [State.advance,parent g above,body],outer g code above body⟩
  · intro h member
    rw [back,List.mem_singleton] at member
    simp [member,State.advance]
  · intro d member h
    rw [back,List.mem_singleton] at member
    subst d
    by_cases same : h = c
    · subst h; exact fun _ => tip c unfinished
    · simpa [State.advance,same] using tip h
  · simp [State.advance,allocated,running]
  · simp [State.advance]
  · simp [State.advance]
  · simp [State.advance,running]

theorem Control.coAwait (fs : Frames s) (cs : Control s) (pc : s.pc = .running popped c)
    (here : s.body c = some (.coAwait child rest)) : Control (s.advance popped c (.coAwait child rest)) := by
  obtain ⟨empty,⟨allocated,held⟩,unfinished,tip⟩ := cs.inside pc
  have running := fs.root_unfinished unfinished
  have known := fs.known
  have childParent := fs.childParent
  have lives := fs.unfinished
  have newer : ∀ h, s.body h ≠ none → s.continuation h ≠ some s.fresh := by
    intro h inner above
    obtain ⟨code,body⟩ := Option.ne_none_iff_exists'.mp inner
    obtain ⟨code',body'⟩ := Option.ne_none_iff_exists'.mp (childParent h s.fresh (lives h code body) above)
    exact Nat.lt_irrefl _ (known _ (lives _ _ body'))
  have older : ∀ g, s.allocated g = true → g ≠ s.fresh := fun g alive same => Nat.lt_irrefl _ (same ▸ known g alive)
  have before : ∀ g code, s.body g = some code → g ≠ c →
      Function.update (Function.update s.body c (some rest)) s.fresh (some child) g = some code := by
    intro g code body other
    rw [Function.update_of_ne (older g (lives g code body)),Function.update_of_ne other]
    exact body
  have parent : Function.update (Function.update s.body c (some rest)) s.fresh (some child) c = some rest := by
    rw [Function.update_of_ne (older c (lives c _ here)),Function.update_self]
  simp only [State.advance]
  apply control_running
  · rfl
  · exact empty
  · have new := older popped allocated
    refine ⟨by simpa [new] using allocated,fun g above => ?_⟩
    obtain ⟨code,body,pending⟩ := held g (by simpa [new] using above)
    by_cases same : g = c
    · rw [same,here] at body
      cases body
      exact ⟨rest,same ▸ parent,pending⟩
    · exact ⟨code,before g code body same,pending⟩
  · simp
  · intro h inner above
    dsimp only at inner above
    by_cases same : h = s.fresh
    · rw [same,Function.update_self] at above
      exact older c (lives c _ here) (Option.some.inj above)
    · rw [Function.update_of_ne same] at inner above
      by_cases last : h = c
      · rw [last] at above
        exact newer c unfinished above
      · rw [Function.update_of_ne last] at inner
        exact newer h inner above
  · exact running

private theorem pending_outside {code : Coroutine} (here : s.body c = some code) (ready : code.pending = false) :
    ∀ g next, s.body g = some next → next.pending = true → g ≠ c := by
  intro g next body pending same
  rw [same,here] at body
  cases body
  rw [ready] at pending
  contradiction

private theorem Frames.endTemporaries_lives (fs : Frames s) (allocated : s.allocated popped = true)
    (held : ∀ g, s.continuation popped = some g → ∃ code, s.body g = some code ∧ code.pending = true)
    (outside : ∀ g code, s.body g = some code → code.pending = true → g ≠ c) :
    (s.endTemporaries (s.temporaries c)).allocated popped = true := by
  rw [endTemporaries_allocated,if_neg]
  · exact allocated
  · intro member
    obtain ⟨code,body,pending⟩ := held c (fs.temporaryParent c popped member)
    exact outside c code body pending rfl

theorem Control.semicolon (fs : Frames s) (cs : Control s) (pc : s.pc = .running popped c)
    (here : s.body c = some (.semicolon rest)) : Control (s.advance popped c (.semicolon rest)) := by
  obtain ⟨empty,⟨allocated,held⟩,unfinished,tip⟩ := cs.inside pc
  have running := fs.root_unfinished unfinished
  have outside := pending_outside here rfl
  simp only [State.advance]
  apply control_running
  · simpa using pc
  · simpa [State.waiting] using empty
  · refine ⟨fs.endTemporaries_lives allocated held outside,fun g above => ?_⟩
    obtain ⟨code,body,pending⟩ := held g (by simpa using above)
    exact ⟨code,by simpa [outside g code body pending] using body,pending⟩
  · simp
  · intro h inner
    rw [endTemporaries_continuation]
    by_cases same : h = c
    · exact same ▸ tip c unfinished
    · exact tip h (by simpa [same] using inner)
  · simpa using running

theorem Control.coReturn (fs : Frames s) (cs : Control s) (pc : s.pc = .running popped c)
    (here : s.body c = some .coReturn) : Control (s.advance popped c .coReturn) := by
  obtain ⟨empty,⟨allocated,held⟩,unfinished,tip⟩ := cs.inside pc
  have running := fs.root_unfinished unfinished
  have lives := fs.unfinished c _ here
  have outside := pending_outside here rfl
  have kept := fs.endTemporaries_lives allocated held outside
  simp only [State.advance]
  cases above : s.continuation c with
  | none =>
    have root := fs.orphan c lives above
    have same : popped = 0 := by
      cases outer : s.continuation popped with
      | none => exact fs.orphan popped allocated outer
      | some g =>
        obtain ⟨code,body,pending⟩ := held g outer
        exact absurd (fs.root_last (root ▸ tip) g (by simp [body])) (root ▸ outside g code body pending)
    subst root
    apply control_stopped <;> simp_all [State.waiting]
  | some g =>
    have parent := fs.childParent c g lives above
    have root : c ≠ 0 := by
      intro same
      rw [same,fs.rootContinuation] at above
      contradiction
    have other : g ≠ c := fun same => tip c unfinished (same ▸ above)
    apply control_running
    · rfl
    · simpa [State.waiting] using empty
    · refine ⟨kept,fun d outer => ?_⟩
      obtain ⟨code,body,pending⟩ := held d (by simpa using outer)
      exact ⟨code,by simpa [outside d code body pending] using body,pending⟩
    · simpa [other] using parent
    · intro h inner
      rw [endTemporaries_continuation]
      by_cases same : h = c
      · simp [same] at inner
      · have inner : s.body h ≠ none := by simpa [same] using inner
        exact fun below => same (fs.only h c inner unfinished (below.trans above.symm))
    · simpa [root.symm] using running

theorem use_allocated (allocated : s.allocated c = true) : s.use c = s := by
  simp [State.use,allocated]

end

structure Intact (s : State) : Prop where
  frames : Frames s
  control : Control s

private theorem start_intact (root : Coroutine) (outlives : root.outlives = true) : Intact (start root) := by
  constructor
  · constructor <;> simp only [start]
    all_goals grind -ring -linarith
  · apply control_stopped <;> simp [start,State.waiting,State.Held]

section
variable {s s' : State}

theorem Control.waits (cs : Control s) (stopped : ∀ p c, s.pc ≠ .running p c) {h : Handle} (member : h ∈ s.waiting) :
    s.active = some h := by
  have single := cs.single
  have same : s.waiting.head? = some h := by
    match waiting : s.waiting with
    | [] => simp [waiting] at member
    | [x] => simpa [waiting,eq_comm] using member
    | x::y::rest => simp [waiting] at single
  unfold State.active
  split
  next p c pc => exact absurd pc (stopped p c)
  next => exact same

theorem Intact.exec (h : Intact s) (moved : step s .exec = some s') : Intact s' := by
  obtain ⟨fs,cs⟩ := h
  simp only [step] at moved
  split at moved
  next popped rest idle queue =>
    cases moved
    have single := cs.single
    simp only [State.waiting,queue,List.length_append,List.length_cons] at single
    have parked : s.parked = [] := List.eq_nil_of_length_eq_zero (by omega)
    have remaining : rest = [] := List.eq_nil_of_length_eq_zero (by omega)
    have active : s.active = some popped := by simp [State.active,State.waiting,idle,parked,queue]
    have member : popped ∈ s.waiting := by simp [State.waiting,queue]
    have unfinished := cs.active popped active
    refine ⟨{ fs with },control_running rfl ?_ (cs.held popped member) unfinished (cs.tip popped · active)
      (fs.root_unfinished unfinished)⟩
    simp [State.waiting,parked,remaining]
  next => contradiction

theorem Intact.submit {handle : Handle} (h : Intact s) (moved : step s (.submit handle) = some s') : Intact s' := by
  obtain ⟨fs,cs⟩ := h
  simp only [step] at moved
  split at moved
  next member =>
    cases moved
    have single := cs.single
    obtain ⟨before,after,split⟩ := List.append_of_mem member
    have parked : s.parked = [handle] := by
      simp only [State.waiting,split,List.length_append,List.length_cons] at single
      rw [split,List.eq_nil_of_length_eq_zero (l := before) (by omega),
        List.eq_nil_of_length_eq_zero (l := after) (by omega)]
      rfl
    have queue : s.taskQueue = [] := by
      simp only [State.waiting,parked,List.length_append,List.length_cons] at single
      exact List.eq_nil_of_length_eq_zero (by omega)
    have waiting : { s with parked := s.parked.erase handle, taskQueue := s.taskQueue ++ [handle] }.waiting = s.waiting := by
      simp [State.waiting,parked,queue]
    have stopped : ∀ p c, s.pc ≠ .running p c := by
      intro p c pc
      have empty := (cs.running p c pc).1
      simp [State.waiting,parked] at empty
    refine ⟨{ fs with },?_⟩
    apply control_stopped
    · exact stopped
    · rw [waiting]; exact cs.single
    · rw [waiting]; exact cs.held
    · rw [waiting]; exact fun h member => cs.active h (cs.waits stopped member)
    · rw [waiting]; exact fun h member => (cs.tip h · (cs.waits stopped member))
    · exact cs.done
    · exact cs.clean
    · exact cs.idle
    · rw [waiting]; exact cs.finished
  next => contradiction

theorem Intact.step (h : Intact s) (moved : step s .step = some s') : Intact s' := by
  obtain ⟨fs,cs⟩ := h
  simp only [Lifecycle.step] at moved
  split at moved
  case h_1 => contradiction
  case h_2 popped c pc =>
    obtain ⟨_,_,unfinished,tip⟩ := cs.inside pc
    split at moved
    next code here =>
      cases moved
      rw [use_allocated (fs.unfinished c code here)]
      cases code with
      | suspend rest => exact ⟨fs.suspend here tip,cs.suspend fs pc here⟩
      | coAwait child rest => exact ⟨fs.coAwait here tip,cs.coAwait fs pc here⟩
      | semicolon rest => exact ⟨fs.semicolon here tip,cs.semicolon fs pc here⟩
      | coReturn => exact ⟨fs.coReturn tip,cs.coReturn fs pc here⟩
    next ended => exact absurd ended unfinished
  case h_3 popped pc =>
    obtain ⟨allocated,root⟩ := cs.done popped pc
    have stopped : ∀ p c, s.pc ≠ .running p c := by simp [pc]
    cases moved
    rw [use_allocated allocated]
    refine ⟨{ fs with },?_⟩
    apply control_stopped
    · intro p c
      dsimp only
      split <;> simp
    · exact cs.single
    · exact cs.held
    · exact fun h member => cs.active h (cs.waits stopped member)
    · exact fun h member => (cs.tip h · (cs.waits stopped member))
    · intro p
      dsimp only
      split <;> simp
    · intro p
      dsimp only
      split
      next ended =>
        rintro ⟨⟩
        exact ⟨allocated,by simpa using ended,root⟩
      next => simp
    · intro idle finished
      have ended := fs.rootFinished.mp finished
      simp [root finished,ended] at idle
    · exact cs.finished
  case h_4 popped pc =>
    obtain ⟨allocated,ended,root⟩ := cs.clean popped pc
    have stopped : ∀ p c, s.pc ≠ .running p c := by simp [pc]
    split at moved
    next detached =>
      cases moved
      have zero : popped = 0 := by
        cases above : s.continuation popped with
        | none => exact fs.orphan popped allocated above
        | some g => simp [fs.childState popped g allocated above] at detached
      have finished : s.finished 0 = true := fs.rootFinished.mpr (zero ▸ ended)
      have empty := cs.finished finished
      refine ⟨fs.clean ended allocated detached,?_⟩
      apply control_stopped <;> simp_all [State.waiting,State.destroy]
    next normal =>
      cases moved
      rw [use_allocated allocated]
      have running : s.finished 0 ≠ true := fun finished => normal (root finished ▸ fs.rootState)
      refine ⟨{ fs with },?_⟩
      apply control_stopped
      · simp
      · exact cs.single
      · exact cs.held
      · exact fun h member => cs.active h (cs.waits stopped member)
      · exact fun h member => (cs.tip h · (cs.waits stopped member))
      all_goals simp_all

end

theorem reachable_intact (root : Coroutine) (outlives : root.outlives = true) (s : State)
    (reachable : (machine root).Reachable s) : Intact s := by
  refine Machine.Within.invariant ?_ ?_ reachable
  · rintro s rfl
    exact start_intact root outlives
  · intro s s' a before _ moved
    cases a with
    | exec => exact before.exec moved
    | step => exact before.step moved
    | submit => exact before.submit moved

theorem outlives_cleansUp (root : Coroutine) (outlives : root.outlives = true) (s : State)
    (reachable : (machine root).Reachable s) : CleansUp s := by
  obtain ⟨fs,cs⟩ := reachable_intact root outlives s reachable
  exact ⟨fs.sound,fun idle finished => fs.destroyed 0 fs.born (cs.idle idle finished)⟩

end TinyCoro.Task.Lifecycle
