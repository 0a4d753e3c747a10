import TinyCoro.Io.FixedFds

/-! Who holds which slot. Every operation acts on the leases as one operation of
the free queue does, a copy as telling a second holder of the same slot. -/
namespace TinyCoro.Io
open Library

def slots : Set Int := { i | 0 ≤ i ∧ i < kFixFdArraySize }

theorem toNat_lt {i : Int} (member : i ∈ slots) : i.toNat < kFixFdArraySize := by
  have low := member.1
  have high := member.2
  omega

theorem toNat_ne {i j : Int} (member : i ∈ slots) (member' : j ∈ slots) (other : i ≠ j) : i.toNat ≠ j.toNat := by
  have low := member.1
  have low' := member'.1
  omega

def UringProxy.Nulled (u : UringProxy) : Prop := ∀ i ∈ u.fds.que, u.fds.data[i.toNat]? = u.nullFds[i.toNat]?

namespace FixedFds
variable {u : UringProxy} {f : FixedFds} {fd : Int} {flag : BitVec 32}

theorem construct_uring : (construct u).2 = { u with fds := { u.fds with que := u.fds.que.tail } } := by
  cases free : u.fds.que with
  | nil =>
    simp only [construct,UringProxy.getFixedFd,MarkedBuffer.borrow,free,List.tail_nil]
    rw [← free]
  | cons i rest => simp only [construct,UringProxy.getFixedFd,MarkedBuffer.borrow,free,List.tail_cons]

theorem construct_lease (inside : ∀ i ∈ u.fds.que, i ∈ slots) : (construct u).1.item.lease = u.fds.que.head? := by
  cases free : u.fds.que with
  | nil => simp only [construct,UringProxy.getFixedFd,MarkedBuffer.borrow,free,Item.lease_setInvalid,List.head?_nil]
  | cons i rest =>
    have low : 0 ≤ i := (inside i (free ▸ List.mem_cons_self)).1
    simp only [construct,UringProxy.getFixedFd,MarkedBuffer.borrow,free,List.head?_cons]
    exact Item.lease_eq_some.mpr ⟨decide_eq_true low,rfl⟩

private theorem construct_nulled (nulled : u.Nulled) : (construct u).2.Nulled := by
  rw [construct_uring]
  exact fun i free => nulled i (List.mem_of_mem_tail free)

private theorem returnBack_lease : (f.returnBack u).1.item.lease = none := by
  unfold returnBack
  split
  next => exact Item.lease_setInvalid
  next invalid => exact if_neg invalid

private theorem returnBack_que : (f.returnBack u).2.fds.que = u.fds.que ++ f.item.lease.toList := by
  unfold returnBack Item.lease
  split
  next valid =>
    simp only [UringProxy.backFixedFd,MarkedBuffer.returnBack,valid,if_true,Option.toList_some]
    rfl
  next => simp only [Option.toList_none,List.append_nil]

private theorem returnBack_nulled (nulled : u.Nulled) (inside : ∀ i ∈ u.fds.que, i ∈ slots)
    (holds : ∀ i, f.item.lease = some i → i ∈ slots) : (f.returnBack u).2.Nulled := by
  intro j free
  rw [returnBack_que] at free
  unfold returnBack
  split
  next valid =>
    have leased : f.item.lease = some f.item.idx := Item.lease_eq_some.mpr ⟨valid,rfl⟩
    have bound := toNat_lt (holds _ leased)
    simp only [UringProxy.backFixedFd,MarkedBuffer.returnBack,UringProxy.updateRegisterFixedFds,
      MarkedBuffer.store,valid,if_true,Option.elim_some]
    by_cases here : j = f.item.idx
    · rw [here,Vector.getElem?_setIfInBounds_self_of_lt bound,Vector.getElem?_eq_getElem bound]
      simp [Vector.getD,bound]
    · rw [leased,Option.toList_some,List.mem_append,List.mem_singleton] at free
      have free := free.resolve_right here
      rw [Vector.getElem?_setIfInBounds_ne (toNat_ne (holds _ leased) (inside j free) (Ne.symm here))]
      exact nulled j free
  next invalid =>
    rw [Item.lease,if_neg invalid,Option.toList_none,List.append_nil] at free
    exact nulled j free

private theorem construct_registered (follows : u.registered = u.fds.data) :
    (construct u).2.registered = (construct u).2.fds.data := by
  rw [construct_uring]
  exact follows

private theorem assign_registered (follows : u.registered = u.fds.data) :
    (f.assign u fd flag).2.2.registered = (f.assign u fd flag).2.2.fds.data := by
  unfold assign
  split
  next => rfl
  next => exact follows

private theorem returnBack_registered (follows : u.registered = u.fds.data) :
    (f.returnBack u).2.registered = (f.returnBack u).2.fds.data := by
  unfold returnBack
  split
  next valid => simp only [UringProxy.backFixedFd,MarkedBuffer.returnBack,UringProxy.updateRegisterFixedFds,valid,if_true]
  next => exact follows

private theorem assign_que : (f.assign u fd flag).2.2.fds.que = u.fds.que := by
  unfold assign
  split <;> rfl

private theorem assign_nulled (nulled : u.Nulled) (inside : ∀ i ∈ u.fds.que, i ∈ slots)
    (holds : ∀ i, f.item.lease = some i → i ∈ slots ∧ i ∉ u.fds.que) : (f.assign u fd flag).2.2.Nulled := by
  intro j free
  rw [assign_que] at free
  unfold assign
  split
  next valid =>
    obtain ⟨member,apart⟩ := holds _ (Item.lease_eq_some.mpr ⟨valid,rfl⟩)
    have other : f.item.idx ≠ j := fun same => apart (same ▸ free)
    simp only [UringProxy.updateRegisterFixedFds,MarkedBuffer.store,f.item.points (of_decide_eq_true valid),Option.elim_some]
    rw [Vector.getElem?_setIfInBounds_ne (toNat_ne member (inside j free) other)]
    exact nulled j free
  next => exact nulled j free

end FixedFds

section
variable {Obj Conn : Type}

def State.fixedFd (s : State Obj Conn) : Obj ⊕ Conn → Option FixedFds
  | .inl o => s.objects o
  | .inr c => (s.connectors c).map TcpConnector.fixedFd

def State.leases (s : State Obj Conn) : Lease Int (Obj ⊕ Conn) :=
  ⟨s.uring.fds.que,fun h => (s.fixedFd h).bind fun f => f.item.lease⟩

private theorem leases_free (s : State Obj Conn) : s.leases.free = s.uring.fds.que := rfl

def State.Holds (s : State Obj Conn) (h : Obj ⊕ Conn) (i : Int) : Prop :=
  ∃ f, s.fixedFd h = some f ∧ f.item.valid = true ∧ f.item.idx = i

def Leased (s : State Obj Conn) : Prop :=
  ∀ i : Nat, i < kFixFdArraySize →
    ((s.uring.fds.que.count (i : Int) = 1 ∧ ∀ h, ¬ s.Holds h i) ∨
      (s.uring.fds.que.count (i : Int) = 0 ∧ ∃! h, s.Holds h i)) ∧
    ((i : Int) ∈ s.uring.fds.que → s.uring.fds.data[i]? = s.uring.nullFds[i]?)

theorem holds_iff (s : State Obj Conn) (h : Obj ⊕ Conn) (i : Int) : s.Holds h i ↔ s.leases.held h = some i := by
  simp only [State.Holds,State.leases,Option.bind_eq_some_iff,Item.lease_eq_some]

theorem leased_iff {s : State Obj Conn} (inside : s.leases.Inside slots) :
    Leased s ↔ s.leases.Exact slots ∧ s.uring.Nulled := by
  rw [Lease.exact_iff inside]
  constructor
  · intro leased
    constructor
    · intro i member
      obtain ⟨n,rfl⟩ := Int.eq_ofNat_of_zero_le member.1
      simpa only [holds_iff,leases_free,ne_eq] using (leased n (Int.ofNat_lt.mp member.2)).1
    · intro i free
      have member := inside.free i free
      obtain ⟨n,rfl⟩ := Int.eq_ofNat_of_zero_le member.1
      exact (leased n (Int.ofNat_lt.mp member.2)).2 free
  · rintro ⟨each,nulled⟩ i bound
    have member : (i : Int) ∈ slots := ⟨Int.natCast_nonneg i,Int.ofNat_lt.mpr bound⟩
    refine ⟨?_,fun free => nulled i free⟩
    simpa only [holds_iff,leases_free,ne_eq] using each i member

variable [DecidableEq Obj] [DecidableEq Conn] {s t : State Obj Conn}

private theorem leases_setObject (o : Obj) (f : Option FixedFds) (u : UringProxy) :
    (s.setObject o f u).leases = ⟨u.fds.que,Function.update s.leases.held (.inl o) (f.bind fun f => f.item.lease)⟩ := by
  unfold State.leases
  congr 1
  funext h
  rcases h with o' | c
  · by_cases here : o' = o
    · subst here
      simp only [State.fixedFd,State.setObject,Function.update_self]
    · rw [Function.update_of_ne (fun same => here (Sum.inl.inj same))]
      simp only [State.fixedFd,State.setObject,Function.update_of_ne here]
  · rw [Function.update_of_ne Sum.inr_ne_inl]
    rfl

private theorem leases_setConnector (c : Conn) (f : Option TcpConnector) (u : UringProxy) :
    (s.setConnector c f u).leases =
      ⟨u.fds.que,Function.update s.leases.held (.inr c) (f.bind fun f => f.fixedFd.item.lease)⟩ := by
  unfold State.leases
  congr 1
  funext h
  rcases h with o | c'
  · rw [Function.update_of_ne Sum.inl_ne_inr]
    rfl
  · by_cases here : c' = c
    · subst here
      simp only [State.fixedFd,State.setConnector,Function.update_self]
      cases f <;> rfl
    · rw [Function.update_of_ne (fun same => here (Sum.inr.inj same))]
      simp only [State.fixedFd,State.setConnector,Function.update_of_ne here]

def Action.lease : Action Obj Conn → Lease Int (Obj ⊕ Conn) → Lease Int (Obj ⊕ Conn)
  | .construct o, l => l.take (.inl o)
  | .copy source target, l | .copyAssign source target, l => l.duplicate (.inl source) (.inl target)
  | .assign _ _ _, l => l
  | .returnBack o, l | .destroy o, l => l.giveBack (.inl o)
  | .connect c _, l => l.take (.inr c)
  | .copyConnector source target, l => l.duplicate (.inr source) (.inr target)
  | .close c, l | .destroyConnector c, l => l.giveBack (.inr c)

omit [DecidableEq Obj] [DecidableEq Conn] in
theorem held_object {o : Obj} {f : FixedFds} (live : s.objects o = some f) : s.leases.held (.inl o) = f.item.lease := by
  simp only [State.leases,State.fixedFd,live,Option.bind_some]

omit [DecidableEq Obj] [DecidableEq Conn] in
theorem held_connector {c : Conn} {f : TcpConnector} (live : s.connectors c = some f) :
    s.leases.held (.inr c) = f.fixedFd.item.lease := by
  simp only [State.leases,State.fixedFd,live,Option.map_some,Option.bind_some]

private theorem step_leases {a : Action Obj Conn} (inside : s.leases.Inside slots) (moved : step s a = some t) :
    t.leases = a.lease s.leases := by
  cases a with
  | construct o =>
    simp only [step,Option.ite_none_right_eq_some,Option.some.injEq] at moved
    rw [← moved.2,leases_setObject,Option.bind_some,FixedFds.construct_lease inside.free,FixedFds.construct_uring]
    rfl
  | copy source target =>
    simp only [step,Option.ite_none_right_eq_some,Option.map_eq_some_iff] at moved
    obtain ⟨_,f,live,rfl⟩ := moved
    rw [leases_setObject,Option.bind_some,← held_object live]
    rfl
  | copyAssign source target =>
    simp only [step,Option.ite_none_left_eq_some,Option.map_eq_some_iff] at moved
    obtain ⟨_,f,live,rfl⟩ := moved
    rw [leases_setObject,Option.bind_some,← held_object live]
    rfl
  | assign o fd flag =>
    simp only [step,Option.map_eq_some_iff] at moved
    obtain ⟨f,live,rfl⟩ := moved
    simp only [State.leases,FixedFds.assign_que]
    rfl
  | returnBack o =>
    simp only [step,Option.map_eq_some_iff] at moved
    obtain ⟨f,live,rfl⟩ := moved
    rw [leases_setObject,Option.bind_some,FixedFds.returnBack_lease,FixedFds.returnBack_que,← held_object live]
    rfl
  | destroy o =>
    simp only [step,Option.map_eq_some_iff] at moved
    obtain ⟨f,live,rfl⟩ := moved
    rw [leases_setObject,FixedFds.destroy,FixedFds.returnBack_que,← held_object live]
    rfl
  | connect c sockfd =>
    simp only [step,Option.ite_none_right_eq_some,Option.some.injEq] at moved
    rw [← moved.2,leases_setConnector,Option.bind_some]
    simp only [TcpConnector.construct,FixedFds.assign_que]
    rw [FixedFds.construct_lease inside.free,FixedFds.construct_uring]
    rfl
  | copyConnector source target =>
    simp only [step,Option.ite_none_right_eq_some,Option.map_eq_some_iff] at moved
    obtain ⟨_,f,live,rfl⟩ := moved
    rw [leases_setConnector,Option.bind_some,← held_connector live]
    rfl
  | close c =>
    simp only [step,Option.map_eq_some_iff] at moved
    obtain ⟨f,live,rfl⟩ := moved
    rw [leases_setConnector,Option.bind_some]
    simp only [TcpConnector.close]
    rw [FixedFds.returnBack_lease,FixedFds.returnBack_que,← held_connector live]
    rfl
  | destroyConnector c =>
    simp only [step,Option.map_eq_some_iff] at moved
    obtain ⟨f,live,rfl⟩ := moved
    rw [leases_setConnector,FixedFds.destroy,FixedFds.returnBack_que,← held_connector live]
    rfl

private theorem lease_inside {a : Action Obj Conn} {l : Lease Int (Obj ⊕ Conn)} (inside : l.Inside slots) : (a.lease l).Inside slots := by
  cases a with
  | construct o => exact inside.take _
  | copy source target => exact inside.duplicate _ _
  | copyAssign source target => exact inside.duplicate _ _
  | assign o fd flag => exact inside
  | returnBack o => exact inside.giveBack _
  | destroy o => exact inside.giveBack _
  | connect c sockfd => exact inside.take _
  | copyConnector source target => exact inside.duplicate _ _
  | close c => exact inside.giveBack _
  | destroyConnector c => exact inside.giveBack _

private theorem step_inside (s t : State Obj Conn) (a : Action Obj Conn) (inside : s.leases.Inside slots)
    (moved : step s a = some t) : t.leases.Inside slots := by
  rw [step_leases inside moved]
  exact lease_inside inside

private theorem connect_nulled {u : UringProxy} {sockfd : Int} (inside : ∀ i ∈ u.fds.que, i ∈ slots) (nodup : u.fds.que.Nodup)
    (nulled : u.Nulled) : (TcpConnector.construct u sockfd).2.Nulled := by
  change ((FixedFds.construct u).1.assign (FixedFds.construct u).2 sockfd 0).2.2.Nulled
  have rest : (FixedFds.construct u).2.fds.que = u.fds.que.tail := by rw [FixedFds.construct_uring]
  apply FixedFds.assign_nulled (FixedFds.construct_nulled nulled)
  · rw [rest]
    exact fun i free => inside i (List.mem_of_mem_tail free)
  · intro i lent
    rw [FixedFds.construct_lease inside] at lent
    rw [rest]
    refine ⟨inside i (List.mem_of_head? lent),fun again => ?_⟩
    obtain ⟨tail,queue⟩ := List.head?_eq_some_iff.mp lent
    rw [queue,List.tail_cons] at again
    rw [queue,List.nodup_cons] at nodup
    exact nodup.1 again

inductive Touches (s : State Obj Conn) : UringProxy → Prop
  | nothing : Touches s s.uring
  | construct : Touches s (FixedFds.construct s.uring).2
  | connect (sockfd : Int) : Touches s (TcpConnector.construct s.uring sockfd).2
  | assign {h f} (live : s.fixedFd h = some f) (fd : Int) (flag : BitVec 32) : Touches s (f.assign s.uring fd flag).2.2
  | returnBack {h f} (live : s.fixedFd h = some f) : Touches s (f.returnBack s.uring).2

private theorem step_touches {a : Action Obj Conn} (moved : step s a = some t) : Touches s t.uring := by
  cases a with
  | construct o =>
    simp only [step,Option.ite_none_right_eq_some,Option.some.injEq] at moved
    rw [← moved.2]
    exact .construct
  | copy source target =>
    simp only [step,Option.ite_none_right_eq_some,Option.map_eq_some_iff] at moved
    obtain ⟨_,f,_,rfl⟩ := moved
    exact .nothing
  | copyAssign source target =>
    simp only [step,Option.ite_none_left_eq_some,Option.map_eq_some_iff] at moved
    obtain ⟨_,f,_,rfl⟩ := moved
    exact .nothing
  | assign o fd flag =>
    simp only [step,Option.map_eq_some_iff] at moved
    obtain ⟨f,live,rfl⟩ := moved
    exact .assign (h := .inl o) live fd flag
  | returnBack o =>
    simp only [step,Option.map_eq_some_iff] at moved
    obtain ⟨f,live,rfl⟩ := moved
    exact .returnBack (h := .inl o) live
  | destroy o =>
    simp only [step,Option.map_eq_some_iff] at moved
    obtain ⟨f,live,rfl⟩ := moved
    exact .returnBack (h := .inl o) live
  | connect c sockfd =>
    simp only [step,Option.ite_none_right_eq_some,Option.some.injEq] at moved
    rw [← moved.2]
    exact .connect sockfd
  | copyConnector source target =>
    simp only [step,Option.ite_none_right_eq_some,Option.map_eq_some_iff] at moved
    obtain ⟨_,f,_,rfl⟩ := moved
    exact .nothing
  | close c =>
    simp only [step,Option.map_eq_some_iff] at moved
    obtain ⟨f,live,rfl⟩ := moved
    exact .returnBack (h := .inr c) (Option.map_eq_some_iff.mpr ⟨f,live,rfl⟩)
  | destroyConnector c =>
    simp only [step,Option.map_eq_some_iff] at moved
    obtain ⟨f,live,rfl⟩ := moved
    exact .returnBack (h := .inr c) (Option.map_eq_some_iff.mpr ⟨f,live,rfl⟩)

theorem step_nulled {a : Action Obj Conn} (exact : s.leases.Exact slots) (nulled : s.uring.Nulled)
    (moved : step s a = some t) : t.uring.Nulled := by
  have inside : ∀ i ∈ s.uring.fds.que, i ∈ slots := exact.inside.free
  have held : ∀ {h f}, s.fixedFd h = some f → s.leases.held h = f.item.lease := by
    intro h f live
    simp only [State.leases,live,Option.bind_some]
  have touches := step_touches moved
  generalize t.uring = u at touches ⊢
  cases touches with
  | nothing => exact nulled
  | construct => exact FixedFds.construct_nulled nulled
  | connect sockfd => exact connect_nulled inside exact.nodup nulled
  | assign live fd flag =>
    refine FixedFds.assign_nulled nulled inside fun i holds => ?_
    exact ⟨exact.inside.held _ i ((held live).trans holds),exact.apart _ i ((held live).trans holds)⟩
  | returnBack live => exact FixedFds.returnBack_nulled nulled inside fun i holds => exact.inside.held _ i ((held live).trans holds)

def State.Empty (s : State Obj Conn) (h : Obj ⊕ Conn) : Prop := ∀ i, ¬ s.Holds h i

omit [DecidableEq Obj] [DecidableEq Conn] in
private theorem empty_iff (s : State Obj Conn) (h : Obj ⊕ Conn) : s.Empty h ↔ s.leases.held h = none := by
  rw [Option.eq_none_iff_forall_ne_some]
  exact forall_congr' fun i => not_congr (holds_iff s h i)

/-- An object is copied only while it holds no slot, and copied over another one
only while neither does. -/
def CopiesNothing (s : State Obj Conn) : Action Obj Conn → Prop
  | .copy source _ => s.Empty (.inl source)
  | .copyAssign source target => source = target ∨ (s.Empty (.inl source) ∧ s.Empty (.inl target))
  | .copyConnector source _ => s.Empty (.inr source)
  | _ => True

private theorem duplicate_new {l : Lease Int (Obj ⊕ Conn)} {h h' : Obj ⊕ Conn} (exact : l.Exact slots) (absent : l.held h' = none) :
    (l.duplicate h h').Exact slots ↔ l.held h = none := by
  rw [exact.duplicate_iff]
  constructor
  · rintro (same | ⟨none,_⟩)
    · rw [same,absent]
    · exact none
  · exact fun none => .inr ⟨none,absent⟩

theorem step_exact_iff {a : Action Obj Conn} (exact : s.leases.Exact slots) (moved : step s a = some t) :
    t.leases.Exact slots ↔ CopiesNothing s a := by
  rw [step_leases exact.inside moved]
  cases a with
  | construct o =>
    simp only [step,Option.ite_none_right_eq_some] at moved
    refine iff_of_true (exact.take ?_) trivial
    simp only [State.leases,State.fixedFd,moved.1,Option.bind_none]
  | copy source target =>
    simp only [step,Option.ite_none_right_eq_some] at moved
    have absent : s.leases.held (.inl target) = none := by simp only [State.leases,State.fixedFd,moved.1,Option.bind_none]
    rw [CopiesNothing,empty_iff]
    exact duplicate_new exact absent
  | copyAssign source target =>
    rw [CopiesNothing,empty_iff,empty_iff]
    exact (exact.duplicate_iff (.inl source) (.inl target)).trans (or_congr_left ⟨Sum.inl.inj,congrArg _⟩)
  | assign o fd flag => exact iff_of_true exact trivial
  | returnBack o => exact iff_of_true (exact.giveBack _) trivial
  | destroy o => exact iff_of_true (exact.giveBack _) trivial
  | connect c sockfd =>
    simp only [step,Option.ite_none_right_eq_some] at moved
    refine iff_of_true (exact.take ?_) trivial
    simp only [State.leases,State.fixedFd,moved.1,Option.map_none,Option.bind_none]
  | copyConnector source target =>
    simp only [step,Option.ite_none_right_eq_some] at moved
    have absent : s.leases.held (.inr target) = none := by
      simp only [State.leases,State.fixedFd,moved.1,Option.map_none,Option.bind_none]
    rw [CopiesNothing,empty_iff]
    exact duplicate_new exact absent
  | close c => exact iff_of_true (exact.giveBack _) trivial
  | destroyConnector c => exact iff_of_true (exact.giveBack _) trivial

private theorem step_leased_iff (s t : State Obj Conn) (a : Action Obj Conn) (inside : s.leases.Inside slots) (leased : Leased s)
    (moved : step s a = some t) : Leased t ↔ CopiesNothing s a := by
  obtain ⟨exact,nulled⟩ := (leased_iff inside).mp leased
  rw [leased_iff (step_inside s t a inside moved),step_exact_iff exact moved]
  exact and_iff_left (step_nulled exact nulled moved)

section
variable (memory : MarkedBuffer Int kFixFdArraySize) (nulls : Vector Int kFixFdArraySize)

omit [DecidableEq Obj] [DecidableEq Conn] in
theorem initial_inside : (State.initial memory nulls : State Obj Conn).leases.Inside slots := by
  constructor
  · intro i free
    obtain ⟨n,bound,rfl⟩ := List.mem_map.mp free
    exact ⟨Int.natCast_nonneg n,Int.ofNat_lt.mpr (List.mem_range.mp bound)⟩
  · rintro (o | c) i holds <;> cases holds

omit [DecidableEq Obj] [DecidableEq Conn] in
theorem initial_leased : Leased (State.initial memory nulls : State Obj Conn) := by
  rw [leased_iff (initial_inside memory nulls)]
  refine ⟨⟨initial_inside memory nulls,?_,?_,?_,?_⟩,fun i _ => rfl⟩
  · exact List.nodup_range.map fun i j same => Int.ofNat.inj same
  · intro i member
    left
    obtain ⟨n,rfl⟩ := Int.eq_ofNat_of_zero_le member.1
    exact List.mem_map.mpr ⟨n,List.mem_range.mpr (Int.ofNat_lt.mp member.2),rfl⟩
  · rintro (o | c) i holds <;> cases holds
  · rintro (o | c) h' i holds <;> cases holds

/-- In every run: the slots are leased to one holder at a time in every state exactly
when nothing that holds a slot is copied. -/
theorem leased_always_iff (actions : List (Action Obj Conn)) (t : State Obj Conn)
    (ran : machine.run (State.initial memory nulls) actions = some t) :
    machine.Always Leased (State.initial memory nulls) actions ↔
      machine.Meets CopiesNothing (State.initial memory nulls) actions :=
  Machine.always_iff_meets (fun s => s.leases.Inside slots) step_inside step_leased_iff actions _ t ran
    (initial_inside memory nulls) (initial_leased memory nulls)

end

/-- The kernel sees what the slots hold, copied items or not. -/
theorem registered_reachable (reachable : machine.Reachable s) : s.uring.registered = s.uring.fds.data := by
  induction reachable with
  | start initial =>
    obtain ⟨memory,nulls,rfl⟩ := initial
    rfl
  | @step s t a _ _ moved follows =>
    have touches := step_touches moved
    generalize t.uring = u at touches ⊢
    cases touches with
    | nothing => exact follows
    | construct => exact FixedFds.construct_registered follows
    | connect sockfd => exact FixedFds.assign_registered (FixedFds.construct_registered follows)
    | assign live fd flag => exact FixedFds.assign_registered follows
    | returnBack live => exact FixedFds.returnBack_registered follows

/-- A closed connector may be copied. -/
theorem closed_copy_leased :
    machine.Always Leased (State.initial ⟨.replicate 8 0,[]⟩ (.replicate 8 9) : State Unit Bool)
      [.connect false 4,.close false,.copyConnector false true] := by
  refine (leased_always_iff _ _ _ _ rfl).mpr ⟨trivial,fun _ connected => ⟨trivial,fun _ closed => ⟨?_,fun _ _ => trivial⟩⟩⟩
  cases Option.some.inj connected
  cases Option.some.inj closed
  rintro i ⟨f,live,valid,_⟩
  cases Option.some.inj live
  contradiction

theorem copy_held_twice :
    ¬ machine.Always Leased (State.initial ⟨.replicate 8 0,[]⟩ (.replicate 8 9) : State Unit Bool)
      [.connect false 4,.copyConnector false true] := by
  intro always
  have leased : Leased _ := (always.2 _ rfl).2 _ rfl
  rcases (leased 0 (by decide)).1 with ⟨_,nobody⟩ | ⟨_,unique⟩
  · exact nobody (.inr false) ⟨_,rfl,rfl,rfl⟩
  · have same : (.inr false : Unit ⊕ Bool) = .inr true := unique.unique ⟨_,rfl,rfl,rfl⟩ ⟨_,rfl,rfl,rfl⟩
    cases same

end
end TinyCoro.Io
