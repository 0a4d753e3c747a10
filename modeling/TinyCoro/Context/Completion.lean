import Mathlib.Data.List.Nodup
import TinyCoro.Context.Counters

/-! Every io operation from the construction of its awaiter to the callback. Its
entry is in one place after the other: the submission ring, the kernel, the completion
ring; then its callback has run, once, with its own result. -/
namespace TinyCoro.Context
open Library

variable {Coro : Type} [DecidableEq Coro]

def Pc.handled : Pc Coro → Nat
  | .handleCqe i _ | .wakeUp i _ | .aborted i _ => i
  | .cqAdvance cnt => cnt
  | _ => 0

def Pc.current : Pc Coro → Option Coro
  | .running _ handle | .wakeSelf _ handle => some handle
  | _ => none

def Pc.reaping : Pc Coro → Bool
  | .handleCqe _ _ | .wakeUp _ _ | .cqAdvance _ | .subtract _ | .aborted _ _ => true
  | _ => false

def State.unreaped (s : State Coro) : List Completion := s.cq.drop s.pc.handled

/-- The operations whose callbacks have not run. -/
def State.entries (s : State Coro) : List Entry := s.sq ++ s.inKernel ++ s.unreaped.map Completion.entry

def State.completed (s : State Coro) : List Nat := s.callbacks.map Callback.op

/-- Nothing but its completion queues a coroutine that awaits an operation. -/
def Undisturbed (s : State Coro) : Action Coro → Prop
  | .push t | .submitSelf t => s.awaiting t = none
  | .coAwait _ => ∀ t ∈ s.pc.current, t ∉ s.taskQueue
  | _ => True

/-- `infos`, `unawaited` and `awaited` are about the awaiters that are alive, `frame`
and `stored` about the coroutines that have co_awaited one. -/
structure Ops (s : State Coro) : Prop where
  placed : ∀ k, (s.entries.map Entry.op).count k + s.completed.count k = if k < s.operations.length then 1 else 0
  handled : s.pc.handled ≤ s.cq.length
  bound : ∀ i cnt, s.pc = .handleCqe i cnt ∨ s.pc = .wakeUp i cnt → i ≤ cnt
  alive : ∀ e, e ∈ s.entries → s.live e.userData = true ∧ s.made e.userData = e.op
  infos : ∀ p, s.live p = true → ∃ o, s.operations[s.made p]? = some o ∧ (s.info p).type = o.type ∧
    (s.info p).data = o.data ∧ (s.info p).handle = s.coroutine (s.made p)
  unawaited : ∀ p, s.live p = true → (s.info p).handle = none → ⟨s.made p,p⟩ ∈ s.entries
  awaited : ∀ p t, s.live p = true → (s.info p).handle = some t → s.awaiting t = some ⟨s.made p,p⟩
  frame : ∀ t e, s.awaiting t = some e → s.live e.userData = true ∧ s.made e.userData = e.op ∧
    (s.info e.userData).handle = some t
  known : ∀ k, s.operations.length ≤ k → s.coroutine k = none
  posted : ∀ c, c ∈ s.unreaped → s.posted c.entry.op = some c.res
  done : ∀ c, c ∈ s.callbacks → ∃ o res, s.operations[c.op]? = some o ∧ s.posted c.op = some res ∧
    s.coroutine c.op = some c.handle ∧ c.result = callback o.type o.data res
  pushed : ∀ t e, s.awaiting t = some e → s.taskQueue.count t = s.completed.count e.op
  stored : ∀ t e, s.awaiting t = some e → e ∉ s.entries →
    ∃ c ∈ s.callbacks, c.op = e.op ∧ c.result = (s.info e.userData).result
  current : ∀ t, s.pc.current = some t → s.awaiting t = none
  received : ∀ k r, (k,r) ∈ s.received → ∃ c ∈ s.callbacks, c.op = k ∧ c.result = r

theorem fresh_ops (s : State Coro) (fresh : Fresh s) : Ops s := by
  obtain ⟨_,_,_,_,_,_,_,sq,inKernel,cq,live,awaiting,pc,operations,coroutine,_,callbacks,received⟩ := fresh
  have entries : s.entries = [] := by simp [State.entries,State.unreaped,sq,inKernel,cq]
  constructor <;> simp [*,State.completed,State.unreaped,Pc.handled,Pc.current]

section
variable {s s' : State Coro}

/-- A step that moves no entry and runs no callback. -/
theorem Ops.keep (h : Ops s) (entries : s'.entries = s.entries) (unreaped : s'.unreaped = s.unreaped)
    (callbacks : s'.callbacks = s.callbacks) (operations : s'.operations = s.operations) (made : s'.made = s.made)
    (coroutine : s'.coroutine = s.coroutine) (awaiting : s'.awaiting = s.awaiting) (live : s'.live = s.live)
    (info : s'.info = s.info) (posted : s'.posted = s.posted) (received : s'.received = s.received)
    (queue : s'.taskQueue = s.taskQueue) (handled : s'.pc.handled ≤ s'.cq.length)
    (bound : ∀ i cnt, s'.pc = .handleCqe i cnt ∨ s'.pc = .wakeUp i cnt → i ≤ cnt)
    (current : ∀ t, s'.pc.current = some t → s.pc.current = some t) : Ops s' := by
  refine ⟨?_,handled,bound,?_,?_,?_,?_,?_,?_,?_,?_,?_,?_,?_,?_⟩
  all_goals
    simp only [State.completed,entries,unreaped,callbacks,operations,made,coroutine,awaiting,live,info,posted,received,queue]
  · exact h.placed
  · exact h.alive
  · exact h.infos
  · exact h.unawaited
  · exact h.awaited
  · exact h.frame
  · exact h.known
  · exact h.posted
  · exact h.done
  · exact h.pushed
  · exact h.stored
  · exact fun t here => h.current t (current t here)
  · exact h.received

/-- Operations whose callbacks have not run are all different and not completed. -/
theorem Ops.distinct (h : Ops s) : (s.entries.map Entry.op).Nodup ∧ ∀ e ∈ s.entries, e.op ∉ s.completed := by
  constructor
  · refine List.nodup_iff_count_le_one.mpr fun k => ?_
    have := h.placed k
    split at this <;> omega
  · intro e member completed
    have placed := h.placed e.op
    have first := List.count_pos_iff.mpr (List.mem_map_of_mem (f := Entry.op) member)
    have second := List.count_pos_iff.mpr completed
    split at placed <;> omega

theorem Ops.address (h : Ops s) {p q : InfoPtr} (first : s.live p = true) (second : s.live q = true)
    (same : s.made p = s.made q) : p = q := by
  obtain ⟨_,_,_,_,left⟩ := h.infos p first
  obtain ⟨_,_,_,_,right⟩ := h.infos q second
  rw [← same] at right
  have handles : (s.info p).handle = (s.info q).handle := left.trans right.symm
  cases handle : (s.info p).handle with
  | none =>
    have here := h.unawaited p first handle
    have there := h.unawaited q second (handles ▸ handle)
    exact congrArg Entry.userData (List.inj_on_of_nodup_map h.distinct.1 here there same)
  | some t =>
    have here := h.awaited p t first handle
    rw [h.awaited q t second (handles ▸ handle)] at here
    exact (congrArg Entry.userData (Option.some.inj here)).symm

theorem Ops.entry_eq (h : Ops s) {e e' : Entry} (member : e ∈ s.entries) (live : s.live e'.userData = true)
    (made : s.made e'.userData = e'.op) (same : e'.userData = e.userData) : e' = e := by
  have op := (h.alive e member).2
  rw [← same,made] at op
  cases e
  cases e'
  simp_all

theorem Ops.submitted (h : Ops s) {t : Coro} {pc : Pc Coro} (waking : Nat) (idle : s.awaiting t = none)
    (handled : pc.handled = s.pc.handled)
    (bound : ∀ i cnt, pc = .handleCqe i cnt ∨ pc = .wakeUp i cnt → s.pc = .handleCqe i cnt ∨ s.pc = .wakeUp i cnt)
    (current : pc.current = s.pc.current) :
    Ops { s with taskQueue := s.taskQueue ++ [t], waking := waking, pc := pc } := by
  have entries : { s with taskQueue := s.taskQueue ++ [t], waking := waking, pc := pc }.entries = s.entries := by
    simp only [State.entries,State.unreaped,handled]
  refine ⟨?_,?_,?_,?_,h.infos,?_,h.awaited,h.frame,h.known,?_,h.done,?_,?_,?_,h.received⟩
  · rw [entries]; exact h.placed
  · simpa only [handled] using h.handled
  · exact fun i cnt here => h.bound i cnt (bound i cnt here)
  · rw [entries]; exact h.alive
  · rw [entries]; exact h.unawaited
  · simpa only [State.unreaped,handled] using h.posted
  · intro u e waits
    have other : t ≠ u := by
      rintro rfl
      rw [idle] at waits
      contradiction
    rw [List.count_append,List.count_singleton,beq_eq_false_iff_ne.mpr other]
    exact h.pushed u e waits
  · rw [entries]; exact h.stored
  · exact fun u here => h.current u (current ▸ here)

theorem Ops.accept (h : Ops s) {count : Nat} (pc : s.pc = .doIoSubmit) :
    Ops { s with inKernel := s.inKernel ++ s.sq.take count, sq := s.sq.drop count, pc := .ioSubmitted } := by
  have unreaped : s.unreaped = s.cq := by simp [State.unreaped,pc,Pc.handled]
  have moved : ∀ e, e ∈ s.sq.drop count ++ (s.inKernel ++ s.sq.take count) ++ s.cq.map Completion.entry ↔ e ∈ s.entries := by
    intro e
    have split : e ∈ s.sq ↔ e ∈ s.sq.take count ∨ e ∈ s.sq.drop count := by
      rw [← List.mem_append,List.take_append_drop]
    simp only [State.entries,unreaped,List.mem_append,split]
    grind
  have placed := h.placed
  refine ⟨?_,?_,?_,?_,h.infos,?_,h.awaited,h.frame,h.known,?_,h.done,h.pushed,?_,?_,h.received⟩
  · intro k
    have split : (s.sq.map Entry.op).count k =
        ((s.sq.take count).map Entry.op).count k + ((s.sq.drop count).map Entry.op).count k := by
      rw [← List.count_append,← List.map_append,List.take_append_drop]
    rw [← placed k]
    simp only [State.entries,unreaped,State.completed,List.map_append,List.count_append,split]
    simp only [State.unreaped,Pc.handled,List.drop_zero]
    omega
  · simp [Pc.handled]
  · simp
  · exact fun e member => h.alive e ((moved e).mp member)
  · exact fun p lives none => (moved _).mpr (h.unawaited p lives none)
  · intro c member
    exact h.posted c (by rw [unreaped]; simpa [State.unreaped,Pc.handled] using member)
  · exact fun t e waits gone => h.stored t e waits fun member => gone ((moved e).mpr member)
  · simp [Pc.current]

theorem Ops.io (h : Ops s) {type : IoType} {data : Int} {ptr : InfoPtr} {left : Nat} {handle : Coro}
    (pc : s.pc = .running left handle) (free : s.live ptr = false) :
    Ops { s with
      info := Function.update s.info ptr ⟨none,0,type,data⟩
      live := Function.update s.live ptr true
      sq := s.sq ++ [⟨s.operations.length,ptr⟩]
      numIoWaitSubmit := s.numIoWaitSubmit + 1
      operations := s.operations ++ [⟨type,data⟩]
      made := Function.update s.made ptr s.operations.length } := by
  have unreaped : s.unreaped = s.cq := by simp [State.unreaped,pc,Pc.handled]
  have extended : ∀ (k : Nat) (o : Operation), s.operations[k]? = some o → (s.operations ++ [⟨type,data⟩])[k]? = some o := by
    grind
  have moved : ∀ e, e ∈ s.sq ++ [⟨s.operations.length,ptr⟩] ++ s.inKernel ++ s.unreaped.map Completion.entry ↔
      e ∈ s.entries ∨ e = ⟨s.operations.length,ptr⟩ := by
    intro e
    simp only [State.entries,List.mem_append,List.mem_singleton]
    grind
  have apart : ∀ p, s.live p = true → p ≠ ptr := by
    rintro p lives rfl
    rw [free] at lives
    contradiction
  have placed := h.placed
  obtain ⟨_,handled,bound,alive,infos,unawaited,awaited,frame,known,posted,done,pushed,stored,current,received⟩ := h
  refine ⟨?_,handled,bound,?_,?_,?_,?_,?_,?_,posted,?_,pushed,?_,current,received⟩
  all_goals dsimp only
  · intro k
    have before := placed k
    simp only [State.entries,unreaped,State.completed,List.map_append,List.count_append] at before
    simp only [State.entries,State.unreaped,pc,State.completed,Pc.handled,List.drop_zero,List.map_append,
      List.count_append,List.map_cons,List.map_nil,List.count_singleton,List.length_append,List.length_singleton]
    grind
  · intro e member
    rcases (moved e).mp member with old | rfl
    · obtain ⟨lives,made⟩ := alive e old
      rw [Function.update_of_ne (apart _ lives),Function.update_of_ne (apart _ lives)]
      exact ⟨lives,made⟩
    · exact ⟨Function.update_self ..,Function.update_self ..⟩
  · intro p lives
    by_cases new : p = ptr
    · subst new
      simp only [Function.update_self]
      exact ⟨⟨type,data⟩,by simp,rfl,rfl,(known _ (Nat.le_refl _)).symm⟩
    · simp only [Function.update_of_ne new] at lives ⊢
      obtain ⟨o,created,rest⟩ := infos p lives
      exact ⟨o,extended _ _ created,rest⟩
  · intro p lives none
    by_cases new : p = ptr
    · subst new
      rw [Function.update_self]
      exact (moved _).mpr (.inr rfl)
    · rw [Function.update_of_ne new] at lives none ⊢
      exact (moved _).mpr (.inl (unawaited p lives none))
  · intro p t lives some
    by_cases new : p = ptr
    · rw [new,Function.update_self] at some
      contradiction
    · rw [Function.update_of_ne new] at lives some ⊢
      exact awaited p t lives some
  · intro t e waits
    obtain ⟨lives,rest⟩ := frame t e waits
    have other := apart _ lives
    simp only [Function.update_of_ne other]
    exact ⟨lives,rest⟩
  · intro k outside
    refine known k (Nat.le_trans ?_ outside)
    simp
  · intro c member
    obtain ⟨o,res,created,rest⟩ := done c member
    exact ⟨o,res,extended _ _ created,rest⟩
  · intro t e waits gone
    have other := apart _ (frame t e waits).1
    rw [Function.update_of_ne other]
    exact stored t e waits fun old => gone ((moved e).mpr (.inl old))

theorem Ops.coAwait (h : Ops s) {ptr : InfoPtr} {left : Nat} {handle : Coro} (pc : s.pc = .running left handle)
    (lives : s.live ptr = true) (bare : (s.info ptr).handle = none) (absent : handle ∉ s.taskQueue) :
    Ops { s with
      info := Function.update s.info ptr { s.info ptr with handle := some handle }
      awaiting := Function.update s.awaiting handle (some ⟨s.made ptr,ptr⟩)
      pc := .exec left
      coroutine := Function.update s.coroutine (s.made ptr) (some handle) } := by
  have unreaped : s.cq.drop (.exec left : Pc Coro).handled = s.unreaped := by simp [State.unreaped,pc,Pc.handled]
  have idle : s.awaiting handle = none := h.current handle (by rw [pc]; rfl)
  have here : ⟨s.made ptr,ptr⟩ ∈ s.entries := h.unawaited ptr lives bare
  have open' : s.made ptr ∉ s.completed := h.distinct.2 _ here
  have address : ∀ p, s.live p = true → p ≠ ptr → s.made p ≠ s.made ptr := fun p lives' other same =>
    other (h.address lives' lives same)
  obtain ⟨placed,handled,bound,alive,infos,unawaited,awaited,frame,known,posted,done,pushed,stored,current,received⟩ := h
  refine ⟨?_,by simp [Pc.handled],by simp,?_,?_,?_,?_,?_,?_,?_,?_,?_,?_,by simp [Pc.current],received⟩
  all_goals simp only [State.entries,State.unreaped,State.completed,unreaped]
  · exact placed
  · exact alive
  · intro p lives'
    by_cases this : p = ptr
    · subst this
      obtain ⟨o,created,type,data,_⟩ := infos p lives'
      simp only [Function.update_self]
      exact ⟨o,created,type,data,trivial⟩
    · rw [Function.update_of_ne this,Function.update_of_ne (address p lives' this)]
      exact infos p lives'
  · intro p lives' none
    by_cases this : p = ptr
    · rw [this,Function.update_self] at none
      contradiction
    · rw [Function.update_of_ne this] at none
      exact unawaited p lives' none
  · intro p t lives' some
    by_cases this : p = ptr
    · subst this
      rw [Function.update_self,Option.some.injEq] at some
      rw [← some,Function.update_self]
    · rw [Function.update_of_ne this] at some
      have waits := awaited p t lives' some
      rw [Function.update_of_ne (by rintro rfl; simp [idle] at waits)]
      exact waits
  · intro t e waits
    by_cases mine : t = handle
    · subst mine
      rw [Function.update_self,Option.some.injEq] at waits
      subst waits
      exact ⟨lives,rfl,by rw [Function.update_self]⟩
    · rw [Function.update_of_ne mine] at waits
      obtain ⟨lives',made,owner⟩ := frame t e waits
      have other : e.userData ≠ ptr := by
        intro this
        rw [this,bare] at owner
        contradiction
      rw [Function.update_of_ne other]
      exact ⟨lives',made,owner⟩
  · intro k outside
    obtain ⟨o,created,_⟩ := infos ptr lives
    have inside := (List.getElem?_eq_some_iff.mp created).1
    rw [Function.update_of_ne (by omega)]
    exact known k outside
  · exact posted
  · intro c member
    have other : c.op ≠ s.made ptr := fun same => open' (same ▸ List.mem_map_of_mem (f := Callback.op) member)
    rw [Function.update_of_ne other]
    exact done c member
  · intro t e waits
    by_cases mine : t = handle
    · subst mine
      rw [Function.update_self,Option.some.injEq] at waits
      subst waits
      rw [List.count_eq_zero_of_not_mem absent]
      exact (List.count_eq_zero_of_not_mem open').symm
    · rw [Function.update_of_ne mine] at waits
      exact pushed t e waits
  · intro t e waits gone
    by_cases mine : t = handle
    · subst mine
      rw [Function.update_self,Option.some.injEq] at waits
      exact absurd (waits ▸ here) gone
    · rw [Function.update_of_ne mine] at waits
      have other : e.userData ≠ ptr := by
        intro this
        have owner := (frame t e waits).2.2
        rw [this,bare] at owner
        contradiction
      rw [Function.update_of_ne other]
      exact stored t e waits gone

theorem Ops.post (h : Ops s) {before after : List Entry} {entry : Entry} {res : Int}
    (accepted : s.inKernel = before ++ entry::after) :
    Ops { s.writeEventfd 1 with
      inKernel := before ++ after
      cq := s.cq ++ [⟨entry,res⟩]
      posted := Function.update s.posted entry.op (some res) } := by
  have unreaped : (s.cq ++ [Completion.mk entry res]).drop s.pc.handled = s.unreaped ++ [Completion.mk entry res] :=
    List.drop_append_of_le_length h.handled
  have moved : ∀ e, e ∈ s.sq ++ (before ++ after) ++ (s.unreaped ++ [Completion.mk entry res]).map Completion.entry ↔
      e ∈ s.entries := by
    intro e
    simp only [State.entries,accepted,List.map_append,List.map_cons,List.map_nil,List.mem_append,List.mem_cons,
      List.not_mem_nil]
    grind
  have member : entry ∈ s.entries := by simp [State.entries,accepted]
  have fresh := h.distinct.2 entry member
  have others : ∀ c ∈ s.unreaped, c.entry.op ≠ entry.op := by
    intro c inside same
    have placed := h.placed entry.op
    have first : 0 < (s.unreaped.map fun c => c.entry.op).count entry.op :=
      List.count_pos_iff.mpr (same ▸ List.mem_map_of_mem (f := fun c => c.entry.op) inside)
    simp only [State.entries,accepted,List.map_append,List.map_cons,List.map_map,List.count_append,
      List.count_cons_self,Function.comp_def] at placed
    split at placed <;> omega
  obtain ⟨placed,handled,bound,alive,infos,unawaited,awaited,frame,known,posted,done,pushed,stored,current,received⟩ := h
  simp only [State.writeEventfd]
  refine ⟨?_,?_,bound,?_,infos,?_,awaited,frame,known,?_,?_,pushed,?_,current,received⟩
  all_goals simp only [State.entries,State.unreaped,State.completed,unreaped]
  · intro k
    rw [← placed k]
    simp only [State.entries,State.unreaped,State.completed,accepted,List.map_append,List.map_cons,List.map_nil,
      List.count_append,List.count_cons,List.count_nil]
    omega
  · simp only [List.length_append,List.length_singleton]
    omega
  · exact fun e inside => alive e ((moved e).mp inside)
  · exact fun p lives none => (moved _).mpr (unawaited p lives none)
  · intro c inside
    rcases List.mem_append.mp inside with old | new
    · rw [Function.update_of_ne (others c old)]
      exact posted c old
    · rw [List.mem_singleton.mp new]
      exact Function.update_self ..
  · intro c inside
    obtain ⟨o,r,created,was,rest⟩ := done c inside
    have other : c.op ≠ entry.op := fun same => fresh (same ▸ List.mem_map_of_mem (f := Callback.op) inside)
    exact ⟨o,r,created,by rw [Function.update_of_ne other]; exact was,rest⟩
  · exact fun t e waits gone => stored t e waits fun inside => gone ((moved e).mpr inside)

omit [DecidableEq Coro] in
private theorem storeResult_info (cqe : Completion) : (s.storeResult cqe).info =
    Function.update s.info cqe.entry.userData { s.info cqe.entry.userData with result := s.result cqe } := rfl

theorem Ops.storeResult (h : Ops s) {cqe : Completion} (member : cqe.entry ∈ s.entries) : Ops (s.storeResult cqe) := by
  have infos : ∀ p, ((s.storeResult cqe).info p).type = (s.info p).type ∧
      ((s.storeResult cqe).info p).data = (s.info p).data ∧ ((s.storeResult cqe).info p).handle = (s.info p).handle := by
    intro p
    by_cases this : p = cqe.entry.userData
    · rw [storeResult_info,this,Function.update_self]
      exact ⟨rfl,rfl,rfl⟩
    · rw [storeResult_info,Function.update_of_ne this]
      exact ⟨rfl,rfl,rfl⟩
  have results : ∀ t e, s.awaiting t = some e → e ∉ s.entries → ((s.storeResult cqe).info e.userData).result =
      (s.info e.userData).result := by
    intro t e waits gone
    obtain ⟨lives,made,_⟩ := h.frame t e waits
    have other : e.userData ≠ cqe.entry.userData := fun same => gone (h.entry_eq member lives made same ▸ member)
    rw [storeResult_info,Function.update_of_ne other]
  refine ⟨h.placed,h.handled,h.bound,h.alive,?_,?_,?_,?_,h.known,h.posted,h.done,h.pushed,?_,h.current,h.received⟩
  · intro p lives
    rw [(infos p).1,(infos p).2.1,(infos p).2.2]
    exact h.infos p lives
  · intro p lives
    rw [(infos p).2.2]
    exact h.unawaited p lives
  · intro p t lives
    rw [(infos p).2.2]
    exact h.awaited p t lives
  · intro t e waits
    rw [(infos _).2.2]
    exact h.frame t e waits
  · intro t e waits gone
    obtain ⟨c,inside,op,result⟩ := h.stored t e waits gone
    exact ⟨c,inside,op,result.trans (results t e waits gone).symm⟩

theorem Ops.callback (h : Ops s) {i cnt : Nat} {cqe : Completion} {handle : Coro} {result : Int}
    (pc : s.pc = .handleCqe i cnt) (inside : i < cnt) (here : s.cq[i]? = some cqe)
    (owner : (s.info cqe.entry.userData).handle = some handle) (stores : (s.info cqe.entry.userData).result = result)
    (own : result = Context.callback (s.info cqe.entry.userData).type (s.info cqe.entry.userData).data cqe.res) :
    Ops { s with
      taskQueue := s.taskQueue ++ [handle]
      callbacks := s.callbacks ++ [⟨cqe.entry.op,handle,result⟩]
      pc := .wakeUp (i+1) cnt } := by
  have front : s.unreaped = cqe::s.cq.drop (i+1) := by
    obtain ⟨long,rfl⟩ := List.getElem?_eq_some_iff.mp here
    simp only [State.unreaped,pc,Pc.handled]
    exact List.drop_eq_getElem_cons long
  have reaped : cqe ∈ s.unreaped := by simp [front]
  have member : cqe.entry ∈ s.entries := List.mem_append_right _ (List.mem_map_of_mem reaped)
  obtain ⟨lives,made⟩ := h.alive _ member
  have waits := h.awaited _ _ lives owner
  rw [made] at waits
  have rest : ∀ e, e ∈ s.sq ++ s.inKernel ++ (s.cq.drop (i+1)).map Completion.entry ↔ e ∈ s.entries ∧ e ≠ cqe.entry := by
    intro e
    have once := h.placed cqe.entry.op
    simp only [State.entries,front,List.map_cons,List.map_append,List.count_append,List.count_cons_self] at once
    have absent : cqe.entry ∉ s.sq ++ s.inKernel ++ (s.cq.drop (i+1)).map Completion.entry := by
      intro again
      have twice := List.count_pos_iff.mpr (List.mem_map_of_mem (f := Entry.op) again)
      simp only [List.map_append,List.count_append] at twice
      split at once <;> omega
    simp only [State.entries,front,List.map_cons]
    grind
  -- only the coroutine that is pushed awaits this operation
  have alone : ∀ u e, s.awaiting u = some e → (handle = u ↔ cqe.entry.op = e.op) := by
    intro u e waits'
    obtain ⟨lives',made',owner'⟩ := h.frame u e waits'
    constructor
    · rintro rfl
      rw [waits,Option.some.injEq] at waits'
      exact congrArg Entry.op waits'
    · intro same
      have address := h.address lives lives' (by rw [made,made',same])
      rw [← address,owner] at owner'
      exact Option.some.inj owner'
  obtain ⟨placed,handled,bound,alive,infos,unawaited,awaited,frame,known,posted,done,pushed,stored,current,received⟩ := h
  refine ⟨?_,?_,?_,?_,infos,?_,awaited,frame,known,?_,?_,?_,?_,by simp [Pc.current],?_⟩
  all_goals simp only [State.entries,State.unreaped,State.completed,Pc.handled]
  · intro k
    rw [← placed k]
    simp only [State.entries,front,State.completed,List.map_append,List.map_cons,List.map_nil,List.count_append,
      List.count_cons,List.count_nil]
    omega
  · have := (List.getElem?_eq_some_iff.mp here).1
    omega
  · simp only [reduceCtorEq,Pc.wakeUp.injEq,false_or]
    omega
  · exact fun e inside => alive e ((rest e).mp inside).1
  · intro p lives' none
    refine (rest _).mpr ⟨unawaited p lives' none,fun same => ?_⟩
    rw [← congrArg Entry.userData same,none] at owner
    contradiction
  · intro c inside'
    exact posted c (by rw [front]; exact List.mem_cons_of_mem _ inside')
  · intro c inside'
    rcases List.mem_append.mp inside' with old | new
    · exact done c old
    · obtain ⟨o,created,type,data,coroutine⟩ := infos _ lives
      rw [made] at created coroutine
      rw [List.mem_singleton.mp new]
      exact ⟨o,cqe.res,created,posted _ reaped,by rw [← coroutine,owner],by rw [own,type,data]⟩
  · intro u e waits'
    have before := pushed u e waits'
    simp only [State.completed] at before
    simp only [List.map_append,List.map_cons,List.map_nil,List.count_append,List.count_singleton,before,beq_iff_eq,alone u e waits']
  · intro u e waits' gone
    by_cases same : e = cqe.entry
    · subst same
      exact ⟨_,List.mem_append_right _ (List.mem_singleton_self _),rfl,stores.symm⟩
    · obtain ⟨c,inside',op,equal⟩ := stored u e waits' fun old => gone ((rest e).mpr ⟨old,same⟩)
      exact ⟨c,List.mem_append_left _ inside',op,equal⟩
  · intro k r inside'
    obtain ⟨c,inside',rest'⟩ := received k r inside'
    exact ⟨c,List.mem_append_left _ inside',rest'⟩

theorem Ops.handleCqe (h : Ops s) {i cnt : Nat} {cqe : Completion} {handle : Coro} (pc : s.pc = .handleCqe i cnt)
    (inside : i < cnt) (here : s.cq[i]? = some cqe) (owner : (s.info cqe.entry.userData).handle = some handle) :
    Ops { s.handleCqe cqe handle with pc := .wakeUp (i+1) cnt } := by
  have member : cqe.entry ∈ s.entries := by
    refine List.mem_append_right _ (List.mem_map_of_mem ?_)
    rw [State.unreaped,pc,Pc.handled,List.mem_drop_iff_getElem]
    obtain ⟨long,same⟩ := List.getElem?_eq_some_iff.mp here
    exact ⟨0,by omega,by simpa using same⟩
  refine (h.storeResult member).callback (s := s.storeResult cqe) pc inside here ?_ ?_ ?_
  all_goals simp only [State.storeResult,Function.update_self]
  · exact owner
  · rfl

theorem Ops.exec (h : Ops s) {left : Nat} {handle : Coro} {rest : List Coro} (pc : s.pc = .exec (left+1))
    (queue : s.taskQueue = handle::rest) : Ops { s.resume handle with taskQueue := rest, pc := .running left handle } := by
  have unreaped : s.cq.drop (Pc.running left handle).handled = s.unreaped := by simp [State.unreaped,pc,Pc.handled]
  have later : ∀ u, u ≠ handle → rest.count u = s.taskQueue.count u := by
    intro u other
    rw [queue,List.count_cons_of_ne other.symm]
  have distinct := h.distinct
  have entry_eq : ∀ e ∈ s.entries, ∀ e', s.live e'.userData = true → s.made e'.userData = e'.op →
      e'.userData = e.userData → e' = e := fun _ member _ => h.entry_eq member
  obtain ⟨placed,handled,bound,alive,infos,unawaited,awaited,frame,known,posted,done,pushed,stored,current,received⟩ := h
  cases waits : s.awaiting handle with
  | none =>
    have apart : ∀ u e, s.awaiting u = some e → u ≠ handle := by
      rintro u e waits' rfl
      rw [waits] at waits'
      contradiction
    simp only [State.resume,waits]
    refine ⟨?_,by simp [Pc.handled],by simp,?_,infos,?_,awaited,frame,known,?_,done,?_,?_,?_,received⟩
    all_goals simp only [State.entries,State.unreaped,State.completed,unreaped]
    · exact placed
    · exact alive
    · exact unawaited
    · exact posted
    · intro u e waits'
      rw [later u (apart u e waits')]
      exact pushed u e waits'
    · exact stored
    · rintro t ⟨⟩
      exact waits
  | some entry =>
    have finished : entry.op ∈ s.completed := by
      rw [← List.count_pos_iff,← pushed handle entry waits,queue]
      simp
    have gone : entry ∉ s.entries := fun member => distinct.2 entry member finished
    obtain ⟨c,inside,op,result⟩ := stored handle entry waits gone
    obtain ⟨lives,made,owner⟩ := frame handle entry waits
    simp only [State.resume,waits]
    refine ⟨?_,by simp [Pc.handled],by simp,?_,?_,?_,?_,?_,known,?_,done,?_,?_,?_,?_⟩
    all_goals simp only [State.entries,State.unreaped,State.completed,unreaped]
    · exact placed
    · intro e member
      have apart : e.userData ≠ entry.userData := fun same => gone (entry_eq e member entry lives made same.symm ▸ member)
      rw [Function.update_of_ne apart]
      exact alive e member
    · intro p lives'
      by_cases this : p = entry.userData
      · rw [this,Function.update_self] at lives'
        contradiction
      · rw [Function.update_of_ne this] at lives'
        exact infos p lives'
    · intro p lives' none
      by_cases this : p = entry.userData
      · rw [this,Function.update_self] at lives'
        contradiction
      · rw [Function.update_of_ne this] at lives'
        exact unawaited p lives' none
    · intro p t lives' some
      by_cases this : p = entry.userData
      · rw [this,Function.update_self] at lives'
        contradiction
      · rw [Function.update_of_ne this] at lives'
        have waits' := awaited p t lives' some
        rw [Function.update_of_ne]
        · exact waits'
        · rintro rfl
          rw [waits,Option.some.injEq] at waits'
          exact this (congrArg Entry.userData waits').symm
    · intro t e waits'
      have other : t ≠ handle := by rintro rfl; simp at waits'
      rw [Function.update_of_ne other] at waits'
      obtain ⟨lives',made',owner'⟩ := frame t e waits'
      have apart : e.userData ≠ entry.userData := by
        intro shared
        rw [shared,owner] at owner'
        exact other (Option.some.inj owner').symm
      rw [Function.update_of_ne apart]
      exact ⟨lives',made',owner'⟩
    · exact posted
    · intro u e waits'
      have other : u ≠ handle := by rintro rfl; simp at waits'
      rw [Function.update_of_ne other] at waits'
      rw [later u other]
      exact pushed u e waits'
    · intro u e waits' gone'
      have other : u ≠ handle := by rintro rfl; simp at waits'
      rw [Function.update_of_ne other] at waits'
      exact stored u e waits' gone'
    · rintro t ⟨⟩
      exact Function.update_self ..
    · intro k r member
      rcases List.mem_append.mp member with old | new
      · exact received k r old
      · obtain ⟨rfl,rfl⟩ := Prod.mk.inj (List.mem_singleton.mp new)
        exact ⟨c,inside,op,result⟩

theorem Ops.advance (h : Ops s) (counters : Counters s) (moved : advance s = some s') : Ops s' := by
  unfold Context.advance at moved
  split at moved
  case h_3 left pc =>
    split at moved
    next => contradiction
    next handle rest queue => cases moved; exact h.exec pc queue
  case h_5 left handle pc =>
    split at moved
    next =>
      cases moved
      apply h.keep <;> simp [pc,State.entries,State.unreaped,State.writeEventfd,Pc.handled,Pc.current]
    next => contradiction
  case h_17 i cnt pc =>
    have bound := h.bound i cnt (.inl pc)
    have batch := counters.batch
    simp only [pc,Pc.batch] at batch
    split at moved
    next inside =>
      split at moved
      next => contradiction
      next cqe here =>
        have front : cqe ∈ s.unreaped := by
          obtain ⟨long,rfl⟩ := List.getElem?_eq_some_iff.mp here
          rw [State.unreaped,pc,Pc.handled,List.drop_eq_getElem_cons long]
          exact List.mem_cons_self
        split at moved
        next =>
          have stored := h.storeResult (List.mem_append_right _ (List.mem_map_of_mem front))
          cases moved
          apply stored.keep <;> simp [pc,State.storeResult,State.entries,State.unreaped,Pc.handled,Pc.current]
          omega
        next handle owner => cases moved; exact h.handleCqe pc inside here owner
    next passed =>
      have same : i = cnt := by omega
      cases moved
      apply h.keep <;> simp [pc,same,State.entries,State.unreaped,Pc.handled,Pc.current,batch]
  case h_18 i cnt pc =>
    have handled := h.handled
    have bound := h.bound i cnt (.inr pc)
    simp only [pc,Pc.handled] at handled
    split at moved
    next =>
      cases moved
      apply h.keep <;> simp [pc,State.entries,State.unreaped,State.writeEventfd,Pc.handled,Pc.current,handled]
      omega
    next => contradiction
  case h_19 cnt pc =>
    cases moved
    apply h.keep <;> simp [pc,State.entries,State.unreaped,Pc.handled,Pc.current]
  case h_13 pc | h_15 pc =>
    split at moved
    next => contradiction
    next =>
      cases moved
      apply h.keep
      all_goals try split
      all_goals simp [pc,State.entries,State.unreaped,Pc.handled,Pc.current]
  case h_4 | h_21 | h_22 => contradiction
  all_goals
    next pc =>
      cases moved
      apply h.keep
      all_goals try split
      all_goals simp [pc,State.entries,State.unreaped,Pc.handled,Pc.current]

theorem Ops.step {a : Action Coro} (h : Ops s) (counters : Counters s) (undisturbed : Undisturbed s a)
    (moved : step s a = some s') : Ops s' := by
  cases a with
  | step => exact h.advance counters moved
  | accept count =>
    simp only [Context.step] at moved
    split at moved
    next pc =>
      split at moved
      next => cases moved; exact h.accept pc
      next => contradiction
    next => contradiction
  | io type data ptr =>
    simp only [Context.step] at moved
    split at moved
    next left handle pc =>
      split at moved
      next free => cases moved; exact h.io pc free.1
      next => contradiction
    next => contradiction
  | coAwait ptr =>
    simp only [Context.step] at moved
    split at moved
    next left handle pc =>
      split at moved
      next waits =>
        cases moved
        exact h.coAwait pc waits.1 waits.2 (undisturbed handle (by rw [pc]; rfl))
      next => contradiction
    next => contradiction
  | post before after entry res =>
    simp only [Context.step] at moved
    split at moved
    next accepted => cases moved; exact h.post accepted
    next => contradiction
  | submitSelf t =>
    simp only [Context.step] at moved
    split at moved
    next left handle pc =>
      cases moved
      exact h.submitted s.waking undisturbed (by simp [pc,Pc.handled]) (by simp) (by simp [pc,Pc.current])
    next => contradiction
  | suspend =>
    simp only [Context.step] at moved
    split at moved
    next left handle pc =>
      cases moved
      apply h.keep <;> simp [pc,State.entries,State.unreaped,Pc.handled,Pc.current]
    next => contradiction
  | push t =>
    cases moved
    exact h.submitted (s.waking+1) undisturbed rfl (fun _ _ same => same) rfl
  | registerWait cnt | requestStop =>
    cases moved
    exact h.keep rfl rfl rfl rfl rfl rfl rfl rfl rfl rfl rfl rfl h.handled h.bound fun _ same => same
  | wake | stopWake =>
    simp only [Context.step] at moved
    split at moved
    next =>
      cases moved
      exact h.keep rfl rfl rfl rfl rfl rfl rfl rfl rfl rfl rfl rfl h.handled h.bound fun _ same => same
    next => contradiction

end

end TinyCoro.Context
